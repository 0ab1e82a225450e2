/-
  DesignTokens.Range.Walk — the names between the checkpoints of a range.

  A range `a..b` walks from the index of `a` to that of `b` in steps of one and spells every
  index on the way.  Up to three families may spell an index: the families of the two ends, the
  stricter end first, and for sizes the names with `x` as a last resort.  A chain `a..b..c` walks
  its pairs one after the other and visits a joint once.

  Main facts:
    * `length_walk` — a walk visits as many indices as its ends lie apart, and one more.
    * `length_of_expandPair` — so a pair that expands has that many names.
-/
import DesignTokens.Range.Checkpoint
import DesignTokens.Text.Blank
import DesignTokens.Text.Cut
import DesignTokens.Text.Pieces

namespace DesignTokens.Range

/-! ## §1. Failures -/

/-- How many values one text may expand to. -/
def maxExpansion : Nat := 100000

/-- Why a text cannot be expanded. -/
inductive RangeError where
  /-- A span is opened and not closed. -/
  | unclosed (input : String)
  /-- One end of a pair is no checkpoint. -/
  | unclassified (first last checkpoint : String)
  /-- The ends of a pair do not belong to one scale. -/
  | discontinuity (first last : String)
  /-- There are too many values. -/
  | tooLarge (input : String)
deriving Repr, DecidableEq

/-- The text of a failure. -/
def RangeError.message : RangeError → String
  | .unclosed input => "unclosed `$[[` in `" ++ input ++ "`"
  | .unclassified first last checkpoint =>
    "cannot expand `" ++ first ++ ".." ++ last ++ "`: `" ++ checkpoint
      ++ "` is not a range checkpoint"
  | .discontinuity first last =>
    "cannot expand `" ++ first ++ ".." ++ last ++ "`: checkpoints are not continuous"
  | .tooLarge input =>
    "`" ++ input ++ "` expands to more than " ++ toString maxExpansion ++ " values"

/-! ## §2. Pairs -/

/-- The integers from `first` to `last` in steps of one, both included. -/
def walk (first last : Int) : List Int :=
  (List.range ((last - first).natAbs + 1)).map fun (n : Nat) =>
    if first ≤ last then first + n else first - n

/-- The families that spell the indices between two checkpoints, in the order in which they are
    asked. -/
def spellings (a b : Checkpoint) : List Family :=
  let ends := if !a.strict && b.strict then [b.family, a.family] else [a.family, b.family]
  if a.family = .serial ∨ .extra ∈ ends then ends else ends ++ [.extra]

/-- The name of an index in the first family that has one. -/
def spell (families : List Family) (index : Int) : Option String :=
  (families.findSome? (·.render index)).map String.ofList

/-- The names from one checkpoint to another. -/
def expandPair (first last : String) : Except RangeError (List String) :=
  match classify first.toList with
  | none => .error (.unclassified first last first)
  | some a =>
    match classify last.toList with
    | none => .error (.unclassified first last last)
    | some b =>
      if !continuous a b then .error (.discontinuity first last)
      else if maxExpansion ≤ (b.index - a.index).natAbs then
        .error (.tooLarge (first ++ ".." ++ last))
      else
        match (walk a.index b.index).mapM (spell (spellings a b)) with
        | some names => .ok names
        | none => .error (.discontinuity first last)

/-! ## §3. Items and spans -/

/-- The mark between the checkpoints of a chain. -/
def chainMark : List Char := ['.', '.']

/-- The names along a chain of checkpoints; each joint is visited once. -/
def expandChain : List String → Except RangeError (List String)
  | first :: next :: rest => do
    let names ← expandPair first next
    let others ← expandChain (next :: rest)
    return names ++ others.tail
  | _ => .ok []

/-- The values of one item of a span: a chain, or a text that stands for itself. -/
def expandItem (item : List Char) : Except RangeError (List String) :=
  if Text.occursIn chainMark item then
    expandChain ((Text.cutAll chainMark item).map fun c => String.ofList (Text.trim c))
  else .ok [String.ofList item]

/-- The items of a span: between commas, without blanks around them, and not empty. -/
def spanItems (body : List Char) : List (List Char) :=
  ((Text.pieces ',' body).map Text.trim).filter (!·.isEmpty)

/-- The values of items, one item after the other. -/
def expandItems : List (List Char) → Except RangeError (List String)
  | [] => .ok []
  | item :: rest => do
    let values ← expandItem item
    let others ← expandItems rest
    return values ++ others

/-- The values that a span stands for. -/
def expandSpan (body : List Char) : Except RangeError (List String) :=
  expandItems (spanItems body)

/-! ## §4. Laws -/

/-- A walk visits as many indices as its ends lie apart, and one more. -/
@[simp] theorem length_walk (first last : Int) :
    (walk first last).length = (last - first).natAbs + 1 := by
  simp [walk]

theorem length_of_mapM {α β : Type} {f : α → Option β} {xs : List α} {ys : List β}
    (h : xs.mapM f = some ys) : ys.length = xs.length := by
  induction xs generalizing ys with
  | nil => simp_all
  | cons x xs ih =>
    simp only [List.mapM_cons, Option.bind_eq_bind, Option.bind_eq_some_iff, Option.pure_def,
      Option.some.injEq] at h
    obtain ⟨y, -, rest, hrest, rfl⟩ := h
    simp [ih hrest]

/-- A pair that expands has one name more than its ends lie apart. -/
theorem length_of_expandPair {first last : String} {names : List String}
    (h : expandPair first last = .ok names) :
    ∃ a b, classify first.toList = some a ∧ classify last.toList = some b ∧
      names.length = (b.index - a.index).natAbs + 1 := by
  rw [expandPair] at h
  split at h
  · simp at h
  · next a ha =>
    split at h
    · simp at h
    · next b hb =>
      split at h
      · simp at h
      · split at h
        · simp at h
        · split at h
          · next found hfound =>
            obtain rfl : found = names := by simpa using h
            exact ⟨a, b, ha, hb, by rw [length_of_mapM hfound, length_walk]⟩
          · simp at h

end DesignTokens.Range
