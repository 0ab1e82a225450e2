/-
  DesignTokens.Export.Filter — the exported part of a tree.

  A leaf is addressed by its keys with slashes between them.  It is exported when a pattern that
  includes matches its address and no pattern that excludes does.  Arrays and objects that are
  left without leaves are dropped; what is left of an array moves together, though its items are
  addressed by their old positions.

  Main facts:
    * `filterNode_of_scalar` — a scalar stays or goes as its address is kept or not.
    * `filter_isObject` — the exported part is always an object.
-/
import DesignTokens.Directive.Basic
import DesignTokens.Glob.Reader
import DesignTokens.Text.Blank
import DesignTokens.Tree.Leaves

namespace DesignTokens

/-! ## §1. Filtering by a predicate on addresses -/

namespace Tree

mutual

/-- What is left of a node at an address, if anything is. -/
def filterNode (keep : String → Bool) (address : String) : Tree → Option Tree
  | .obj fields =>
    match filterFields keep address fields with
    | [] => none
    | kept => some (.obj kept)
  | .arr items =>
    match filterItems keep address 0 items with
    | [] => none
    | kept => some (.arr kept)
  | .null => if keep address then some .null else none
  | .bool b => if keep address then some (.bool b) else none
  | .num n => if keep address then some (.num n) else none
  | .str s => if keep address then some (.str s) else none

/-- What is left of the fields of an object. -/
def filterFields (keep : String → Bool) (address : String) :
    List (String × Tree) → List (String × Tree)
  | [] => []
  | (key, value) :: rest =>
    match filterNode keep (placeStep "/" address key) value with
    | some kept => (key, kept) :: filterFields keep address rest
    | none => filterFields keep address rest

/-- What is left of the items of an array, the first of which has the position `index`. -/
def filterItems (keep : String → Bool) (address : String) (index : Nat) : List Tree → List Tree
  | [] => []
  | item :: rest =>
    match filterNode keep (placeStep "/" address (toString index)) item with
    | some kept => kept :: filterItems keep address (index + 1) rest
    | none => filterItems keep address (index + 1) rest

end

/-- The tree with only those leaves whose addresses are kept; always an object. -/
def filterLeaves (keep : String → Bool) (t : Tree) : Tree :=
  match t.filterNode keep "" with
  | some (.obj fields) => .obj fields
  | _ => .obj []

/-- A scalar stays or goes as its address is kept or not. -/
theorem filterNode_of_scalar {keep : String → Bool} {address : String} {t : Tree}
    (h : t.isContainer = false) :
    t.filterNode keep address = if keep address then some t else none := by
  cases t <;> first | rfl | simp [isContainer] at h

/-- The exported part is always an object. -/
theorem filterLeaves_isObject (keep : String → Bool) (t : Tree) :
    (t.filterLeaves keep).isObject = true := by
  rw [filterLeaves]
  split <;> rfl

end Tree

/-! ## §2. Patterns -/

/-- Why export patterns cannot be used. -/
inductive ExportError where
  | pattern (text : String)
deriving Repr, DecidableEq

/-- The text of a failure. -/
def ExportError.message : ExportError → String
  | .pattern text => "invalid export pattern `" ++ text ++ "`"

/-- The glob that a pattern stands for: without blanks around it and slashes in front. -/
def ExportPatterns.globOf (text : String) : List Char :=
  (Text.trim text.toList).dropWhile (· == '/')

/-- Compiles patterns; blank ones are skipped. -/
def ExportPatterns.compileAll : List String → Except ExportError (List Glob.Pattern)
  | [] => .ok []
  | text :: rest => do
    if Text.isAllBlank text then compileAll rest
    else
      match Glob.compile? (globOf text) with
      | none => .error (.pattern text)
      | some glob =>
        let others ← compileAll rest
        return glob :: others

/-- Whether anything can be exported at all. -/
def ExportPatterns.hasInclude (p : ExportPatterns) : Bool :=
  p.included.any fun text => !Text.isAllBlank text

/-- Compiled export patterns. -/
structure ExportFilter where
  included : List Glob.Pattern
  excluded : List Glob.Pattern
deriving Repr, DecidableEq

namespace ExportFilter

/-- Compiles the patterns of a document, those that include first. -/
def compile (p : ExportPatterns) : Except ExportError ExportFilter := do
  let included ← ExportPatterns.compileAll p.included
  let excluded ← ExportPatterns.compileAll p.excluded
  return { included, excluded }

/-- Whether the leaf at an address is exported. -/
def isExported (f : ExportFilter) (address : String) : Bool :=
  f.included.any (·.matches address) && !f.excluded.any (·.matches address)

/-- The exported part of a tree. -/
def filter (f : ExportFilter) (t : Tree) : Tree := t.filterLeaves f.isExported

theorem filter_isObject (f : ExportFilter) (t : Tree) : (f.filter t).isObject = true :=
  Tree.filterLeaves_isObject f.isExported t

end ExportFilter

end DesignTokens
