/-
  DesignTokens.Document — documents as data and directives.

  A document is an object.  Its entry `$build` holds the directives, all others are data, which
  keep their order.
-/
import DesignTokens.Directive.Decode

namespace DesignTokens

/-- The key of the entry that holds the directives. -/
def buildKey : String := "$build"

/-- Why a tree is no document. -/
inductive SchemaError where
  | notAnObject (found : String)
  | directives (fault : DecodeError)
deriving Repr, DecidableEq

/-- The text of a failure. -/
def SchemaError.message : SchemaError → String
  | .notAnObject found => "document must be an object, found " ++ found
  | .directives fault => "invalid `$build` section: " ++ fault.message

/-- A document taken apart. -/
structure Document where
  data : Tree
  directives : Option Directives
deriving Repr, DecidableEq

namespace Document

/-- Takes a document apart into its data and its directives. -/
def split : Tree → Except SchemaError Document
  | .obj fields =>
    match Entries.get? buildKey fields with
    | none => .ok { data := .obj fields, directives := none }
    | some entry =>
      match Directive.decode entry with
      | .error fault => .error (.directives fault)
      | .ok directives =>
        .ok { data := .obj (Entries.erase buildKey fields), directives := some directives }
  | t => .error (.notAnObject t.kind)

end Document

end DesignTokens
