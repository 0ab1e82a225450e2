/-
  DesignTokens.Edit.Basic — edits of a tree, and what can keep one from being made.

  An edit names its places by concrete paths: templates and ranges are gone.  Writing comes in
  three modes, and a node can be copied, moved or removed.  Every edit may say for itself
  whether it is strict; if it does not, the strictness of its surroundings holds.
-/
import DesignTokens.Pointer
import DesignTokens.Tree.Basic

namespace DesignTokens

/-! ## §1. Modes -/

/-- The ways to write a value to a place. -/
inductive WriteMode where
  | add
  | merge
  | replace
deriving Repr, DecidableEq, Inhabited

/-- The ways to bring a node to another place. -/
inductive TransferMode where
  | copy
  | move
deriving Repr, DecidableEq, Inhabited

/-- The name of a way to write. -/
def WriteMode.name : WriteMode → String
  | .add => "add"
  | .merge => "merge"
  | .replace => "replace"

/-- The name of a way to transfer. -/
def TransferMode.name : TransferMode → String
  | .copy => "copy"
  | .move => "move"

/-! ## §2. Edits -/

/-- An edit of a tree. -/
inductive Edit where
  /-- Writes a value. -/
  | write (mode : WriteMode) (path : Pointer) (value : Tree) (strict : Option Bool)
  /-- Brings the node at `source` to `path`. -/
  | transfer (mode : TransferMode) (source path : Pointer) (strict : Option Bool)
  /-- Removes a node. -/
  | remove (path : Pointer) (strict : Option Bool)
deriving Repr, DecidableEq, Inhabited

namespace Edit

/-- The name of the edit's mode. -/
def modeName : Edit → String
  | .write mode .. => mode.name
  | .transfer mode .. => mode.name
  | .remove .. => "remove"

/-- The place that the edit changes. -/
def path : Edit → Pointer
  | .write _ path _ _ | .transfer _ _ path _ | .remove path _ => path

/-- What the edit says about its own strictness. -/
def strict : Edit → Option Bool
  | .write _ _ _ strict | .transfer _ _ _ strict | .remove _ strict => strict

end Edit

/-! ## §3. Failures -/

/-- Why an edit cannot be made. -/
inductive EditError where
  /-- A strict `add` meets something at its place. -/
  | pathExists (path : Pointer)
  /-- A strict edit needs something at its place. -/
  | pathMissing (path : Pointer)
  /-- A strict `add` would have to create a parent. -/
  | createdIntermediate (path created : Pointer)
  /-- There is nothing to copy or move. -/
  | sourceMissing (source : Pointer)
  /-- A segment that meets an array is no position. -/
  | invalidIndex (path : Pointer) (segment : String)
  /-- A position lies beyond the end of its array. -/
  | indexOutOfRange (path : Pointer) (index length : Nat)
  /-- A scalar stands where a container is needed. -/
  | notContainer (path : Pointer) (found : String)
  /-- The whole document can only become an object. -/
  | rootNotObject (found : String)
deriving Repr, DecidableEq

/-- The text of a failure. -/
def EditError.message : EditError → String
  | .pathExists path =>
    "path `" ++ path.text ++ "` already exists, use `replace` or non-strict mode"
  | .pathMissing path =>
    "path `" ++ path.text ++ "` does not exist, use `add` or non-strict mode"
  | .createdIntermediate path created =>
    "writing `" ++ path.text ++ "` would create `" ++ created.text ++ "`, use non-strict mode"
  | .sourceMissing source => "source path `" ++ source.text ++ "` does not exist"
  | .invalidIndex path segment =>
    "`" ++ segment ++ "` is not a valid array index at `" ++ path.text ++ "`"
  | .indexOutOfRange path index length =>
    "array index " ++ toString index ++ " at `" ++ path.text ++ "` is out of range (length "
      ++ toString length ++ ")"
  | .notContainer path found => "cannot address `" ++ path.text ++ "`: parent is " ++ found
  | .rootNotObject found =>
    "the document root can only be replaced with an object, found " ++ found

end DesignTokens
