/-
  DesignTokens.Patch.Matrix — the combinations of a matrix.

  A combination gives every key one of its values.  The values of a key are written out first,
  a text standing for the values of its ranges; a key that is left without values takes no part.
  Keys stand in ascending order, and the first one varies slowest.

  The combinations are put together key by key, and given up as soon as there are too many.

  Main facts:
    * `length_of_extend` — one more key multiplies the combinations by its values.
-/
import DesignTokens.Directive.Basic
import DesignTokens.Range.Expand
import DesignTokens.Template.Resolve

namespace DesignTokens

/-! ## §1. Combinations -/

/-- A value for every key of a matrix. -/
abbrev Combination := Entries Tree

/-- The text of a value without quotes. -/
def Combination.valueText : Tree → String
  | .num n => n.text
  | .str s => s
  | _ => ""

/-- The text of a combination. -/
def Combination.text (c : Combination) : String :=
  ", ".intercalate (c.map fun (key, value) => key ++ "=" ++ valueText value)

/-- The characters in front of the name of a matrix variable. -/
def matrixNamespace : List Char := ['m', 'a', 't', 'r', 'i', 'x', '.']

/-- The source of the values of a combination, under names in a namespace of their own.  Other
    names are left for a later source. -/
def Variables.ofCombination (c : Combination) : Variables where
  lookup name :=
    match matrixNamespace.isPrefixOf? name.toList with
    | none => .ignore
    | some key =>
      match Entries.get? (String.ofList key) c with
      | some value => .value value
      | none => .missing
  names := (Entries.keys c).map (String.ofList matrixNamespace ++ ·)

namespace Matrix

/-! ## §2. Values -/

/-- Why a matrix has no combinations. -/
inductive MatrixError where
  /-- The values of a key cannot be written out. -/
  | values (key : String) (fault : Range.RangeError)
  /-- There are too many combinations. -/
  | tooLarge
deriving Repr, DecidableEq

/-- The values that one value of a matrix stands for. -/
def expandValue : MatrixValue → Except Range.RangeError (List Tree)
  | .number n => .ok [.num n]
  | .text s => (Range.expand s).map (·.map .str)

/-- The values of a key, written out. -/
def expandValues : List MatrixValue → Except Range.RangeError (List Tree)
  | [] => .ok []
  | value :: rest => do
    let values ← expandValue value
    let others ← expandValues rest
    return values ++ others

/-- The keys that take part, with their values, in written order. -/
def participants :
    Entries (List MatrixValue) → Except MatrixError (Entries (List Tree))
  | [] => .ok []
  | (key, values) :: rest => do
    let values ← (expandValues values).mapError (.values key)
    let others ← participants rest
    return if values.isEmpty then others else (key, values) :: others

/-! ## §3. The product -/

/-- The combinations with a value for one more key, unless there are too many of them. -/
def extend (key : String) (values : List Tree) (combinations : List Combination) :
    Except MatrixError (List Combination) :=
  if Range.maxExpansion < combinations.length * values.length then .error .tooLarge
  else .ok (combinations.flatMap fun c => values.map fun value => c ++ [(key, value)])

/-- The combinations with a value for each of several keys, taken key by key. -/
def extendAll :
    Entries (List Tree) → List Combination → Except MatrixError (List Combination)
  | [], combinations => .ok combinations
  | (key, values) :: rest, combinations => do extendAll rest (← extend key values combinations)

/-- Keys in ascending order. -/
def ordered (keys : Entries (List Tree)) : Entries (List Tree) :=
  keys.mergeSort fun a b => decide (a.1 ≤ b.1)

/-- The combinations of a matrix, or nothing when no key takes part. -/
def combinations (matrix : Entries (List MatrixValue)) :
    Except MatrixError (Option (List Combination)) := do
  let keys ← participants matrix
  if keys.isEmpty then return none
  else return some (← extendAll (ordered keys) [[]])

/-- One more key multiplies the combinations by its values. -/
theorem length_of_extend {key : String} {values : List Tree} {combinations out : List Combination}
    (h : extend key values combinations = .ok out) :
    out.length = combinations.length * values.length := by
  rw [extend] at h
  split at h
  · cases h
  · obtain rfl := Except.ok.inj h
    simp only [List.length_flatMap, List.length_map]
    rw [List.map_const', List.sum_replicate_nat]

end Matrix

end DesignTokens
