/-
  DesignTokens.Source.Basic — loaded documents.

  A source is a document that has been read and taken apart, together with the sources it
  imports.  It remembers the reference under which it was first loaded; two sources with the
  same path are the same document.
-/
import DesignTokens.DocPath
import DesignTokens.Document
import DesignTokens.Export.Filter

namespace DesignTokens

/-- Where a document lies and how it was first referred to. -/
structure Location where
  root : DocPath
  file : String
  path : DocPath
deriving Repr, DecidableEq, Inhabited

/-- A loaded document.  Every import has the key under which it is spliced in, its source, and
    whether it is built before that. -/
inductive Source where
  | mk (location : Location) (data : Tree) (directives : Option Directives)
      (imports : List (String × Source × Bool))
deriving Repr, Inhabited

namespace Source

/-- Where the document lies. -/
def location : Source → Location
  | .mk location _ _ _ => location

/-- The document without its directives. -/
def data : Source → Tree
  | .mk _ data _ _ => data

/-- The directives of the document. -/
def directives : Source → Option Directives
  | .mk _ _ directives _ => directives

/-- The imports of the document in written order. -/
def imports : Source → List (String × Source × Bool)
  | .mk _ _ _ imports => imports

/-- The path of the document. -/
def path (s : Source) : DocPath := s.location.path

/-- The patterns of the document, if it exports anything. -/
def exportPatterns? (s : Source) : Option ExportPatterns := do
  let directives ← s.directives
  let patterns ← directives.exports
  if patterns.hasInclude then some patterns else none

/-- Whether the document exports anything. -/
def hasExports (s : Source) : Bool := s.exportPatterns?.isSome

/-- Whether two sources are the same document. -/
def isSame (a b : Source) : Bool := a.path = b.path

end Source

end DesignTokens
