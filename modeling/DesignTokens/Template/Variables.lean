/-
  DesignTokens.Template.Variables — where the values of variables come from.

  A source answers a name with a value, with the remark that the name is not its business, or
  with the remark that it should know the name and does not.  It also lists the names that it
  knows, for suggestions.
-/
import DesignTokens.Number.Literal
import DesignTokens.Similarity
import DesignTokens.Text.Pieces
import DesignTokens.Tree.Leaves

namespace DesignTokens

/-! ## §1. Sources -/

/-- The answer of a source to a name. -/
inductive Lookup where
  | value (value : Tree)
  /-- Not a name of this source: the span is left for another one. -/
  | ignore
  /-- A name of this source that it does not know. -/
  | missing
deriving Repr, DecidableEq

/-- A source of values. -/
structure Variables where
  lookup : String → Lookup
  /-- The names that the source knows. -/
  names : List String

/-- Why a name cannot be replaced by a value. -/
inductive VariableError where
  | notFound (name : String) (suggestions : List String)
  | notScalar (name : String)
deriving Repr, DecidableEq

/-- The text of a failure. -/
def VariableError.message : VariableError → String
  | .notFound name [] => "variable `" ++ name ++ "` not found"
  | .notFound name suggestions =>
    "variable `" ++ name ++ "` not found (did you mean: " ++ ", ".intercalate suggestions ++ ")"
  | .notScalar name => "variable `" ++ name ++ "` is not a string, number or boolean"

namespace Variables

/-- The failure for a name that a source does not know, with the names closest to it. -/
def notFound (vars : Variables) (name : String) : VariableError :=
  .notFound name (Similarity.suggestions name vars.names)

/-! ## §2. Tables -/

/-- The source that answers with the entries of a table. -/
def ofEntries (entries : Entries Tree) : Variables where
  lookup name :=
    match Entries.get? name entries with
    | some value => .value value
    | none => .missing
  names := Entries.keys entries

/-! ## §3. Documents -/

/-- The 64-bit number that a numeral stands for; a plus sign and leading zeros are allowed. -/
def arrayIndex? (key : List Char) : Option Nat :=
  let digits := match key with
    | '+' :: digits => digits
    | digits => digits
  if digits.isEmpty || !digits.all Char.isDigit then none
  else
    let n := Number.numeralValue 10 digits
    if n < Nat.pow 2 64 then some n else none

/-- The node that lies under a list of keys. -/
def descend? : List String → Tree → Option Tree
  | [], t => some t
  | key :: rest, .obj fields => (Entries.get? key fields).bind (descend? rest)
  | key :: rest, .arr items => do
    let index ← arrayIndex? key.toList
    let child ← items[index]?
    descend? rest child
  | _ :: _, _ => none

/-- The source that answers a dotted name with the scalar at that place of a document.
    Containers are not addressable. -/
def ofDocument (doc : Tree) : Variables where
  lookup name :=
    match descend? (Text.splitString '.' name) doc with
    | some node => if node.isContainer then .missing else .value node
    | none => .missing
  names := doc.leaves.map fun leaf => Tree.placeText "." leaf.place

end Variables

end DesignTokens
