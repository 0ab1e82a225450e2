/-
  DesignTokens.Range.Checkpoint — the names that a range can start and end at.

  A checkpoint is a name with an index.  Its family says how names are spelled:

    family           names              index
    serial           `-2`, `0`, `12`    the integer
    standardSingle   `s`, `m`, `l`      -1, 0, 1
    standardDouble   `sm`, `md`, `lg`   -1, 0, 1
    extra            `xs`, `xxl`        ±(count of x + 1)
    numberExtra      `2xs`, `3xl`       ±(number + 1)
    extraNumber      `x2s`, `x3l`       ±(number + 1)

  The size families share one scale.  The names with a single `x` join the standard tier to the
  extra tiers, and they are the only checkpoints that are not strict.

  Main facts:
    * `index_of_classify_serial` — a numeral is its own index.
    * `continuous_comm` — it does not matter which end of a range comes first.
-/
import DesignTokens.Number.Literal

namespace DesignTokens.Range

/-! ## §1. Families -/

/-- The spellings of checkpoints. -/
inductive Family where
  | serial
  | standardSingle
  | standardDouble
  | extra
  | numberExtra
  | extraNumber
deriving Repr, DecidableEq, Inhabited

/-- Whether the family spells sizes without an `x`. -/
def Family.isStandard : Family → Bool
  | .standardSingle | .standardDouble => true
  | _ => false

/-- Whether the family spells sizes with an `x`. -/
def Family.isExtra : Family → Bool
  | .extra | .numberExtra | .extraNumber => true
  | _ => false

/-- The letter for the small or the large side. -/
def sideLetter (index : Int) : Char := if index < 0 then 's' else 'l'

/-- How a family spells an index, if it has a name for it. -/
def Family.render (family : Family) (index : Int) : Option (List Char) :=
  let side := sideLetter index
  -- how many tiers the index lies above the standard ones
  let steps := index.natAbs - 1
  match family with
  | .serial => some (toString index).toList
  | .standardSingle =>
    if index = -1 then some ['s'] else if index = 0 then some ['m']
    else if index = 1 then some ['l'] else none
  | .standardDouble =>
    if index = -1 then some ['s', 'm'] else if index = 0 then some ['m', 'd']
    else if index = 1 then some ['l', 'g'] else none
  | .extra => if 1 ≤ steps then some (List.replicate steps 'x' ++ [side]) else none
  | .numberExtra => if 2 ≤ steps then some (Nat.toDigits 10 steps ++ ['x', side]) else none
  | .extraNumber => if 2 ≤ steps then some ('x' :: Nat.toDigits 10 steps ++ [side]) else none

/-! ## §2. Checkpoints -/

/-- A classified name. -/
structure Checkpoint where
  family : Family
  index : Int
  /-- Only `xs` and `xl` are not strict. -/
  strict : Bool
deriving Repr, DecidableEq, Inhabited

/-- Indices are signed 64-bit numbers. -/
def holdsIndex (index : Int) : Bool := -Int.pow 2 63 ≤ index && index < Int.pow 2 63

/-- The number that a run of digits stands for, if it is one from `1` to `2^63 - 1`. -/
def count? (digits : List Char) : Option Nat :=
  if digits.isEmpty || !digits.all Char.isDigit then none
  else
    let n := Number.numeralValue 10 digits
    if 1 ≤ n ∧ n < Nat.pow 2 63 then some n else none

/-- The index of the `n`-th extra tier on a side, as long as its distance from the middle is a
    signed 64-bit number. -/
def extraIndex? (sign : Int) (n : Nat) : Option Int :=
  if n + 1 < Nat.pow 2 63 then some (sign * (n + 1)) else none

/-- The text without its last character, and that character. -/
def splitLast? (s : List Char) : Option (List Char × Char) :=
  s.getLast?.map fun c => (s.dropLast, c)

/-- The sign of a side letter. -/
def sideSign? : Char → Option Int
  | 's' => some (-1)
  | 'l' => some 1
  | _ => none

/-- A name of a serial checkpoint: digits, maybe after a minus sign. -/
def isNumeral : List Char → Bool
  | '-' :: digits => !digits.isEmpty && digits.all Char.isDigit
  | digits => !digits.isEmpty && digits.all Char.isDigit

/-- The value of a numeral. -/
def numeralIndex : List Char → Int
  | '-' :: digits => -(Number.numeralValue 10 digits : Int)
  | digits => Number.numeralValue 10 digits

/-- The names of the standard tier. -/
def standard? : List Char → Option Checkpoint
  | ['s'] => some ⟨.standardSingle, -1, true⟩
  | ['m'] => some ⟨.standardSingle, 0, true⟩
  | ['l'] => some ⟨.standardSingle, 1, true⟩
  | ['s', 'm'] => some ⟨.standardDouble, -1, true⟩
  | ['m', 'd'] => some ⟨.standardDouble, 0, true⟩
  | ['l', 'g'] => some ⟨.standardDouble, 1, true⟩
  | _ => none

/-- The names of the extra tiers, from what stands in front of the side letter. -/
def extraTier? (sign : Int) (body : List Char) : Option Checkpoint :=
  if !body.isEmpty && body.all (· == 'x') then
    some ⟨.extra, sign * (body.length + 1), body.length ≠ 1⟩
  else
    match numberExtra? body with
    | some n => (extraIndex? sign n).map fun index => ⟨.numberExtra, index, true⟩
    | none =>
      match extraNumber? body with
      | some n => (extraIndex? sign n).map fun index => ⟨.extraNumber, index, true⟩
      | none => none
where
  /-- A number in front of an `x`. -/
  numberExtra? (body : List Char) : Option Nat :=
    match splitLast? body with
    | some (digits, 'x') => count? digits
    | _ => none
  /-- A number behind an `x`. -/
  extraNumber? : List Char → Option Nat
    | 'x' :: digits => count? digits
    | _ => none

/-- The checkpoint that a name stands for. -/
def classify (name : List Char) : Option Checkpoint :=
  if isNumeral name then
    if holdsIndex (numeralIndex name) then some ⟨.serial, numeralIndex name, true⟩ else none
  else
    match standard? name with
    | some checkpoint => some checkpoint
    | none =>
      match splitLast? name with
      | some (body, side) => (sideSign? side).bind fun sign => extraTier? sign body
      | none => none

/-- Whether two checkpoints can be the ends of one range. -/
def continuous (a b : Checkpoint) : Bool :=
  if a.family = b.family then true
  else if a.family = .serial ∨ b.family = .serial then false
  else if a.family.isStandard && b.family.isStandard then false
  else if a.family.isExtra && b.family.isExtra then !a.strict || !b.strict
  else true

/-! ## §3. Laws -/

/-- A numeral is its own index. -/
theorem index_of_classify_serial {name : List Char} {c : Checkpoint} (hname : isNumeral name)
    (h : classify name = some c) : c = ⟨.serial, numeralIndex name, true⟩ := by
  rw [classify, if_pos hname] at h
  split at h
  · exact (Option.some.inj h).symm
  · simp at h

/-- It does not matter which end of a range comes first. -/
theorem continuous_comm (a b : Checkpoint) : continuous a b = continuous b a := by
  simp only [continuous, eq_comm (a := a.family) (b := b.family), or_comm,
    Bool.and_comm, Bool.or_comm]

end DesignTokens.Range
