/-
  DesignTokens.Range.Expand — texts with range spans.

  A span stands between `$[[` and `]]`.  A text with spans stands for the values of the
  Cartesian product of its spans, the first span varying slowest.  Spans are found from the
  left: each opens at the first mark and closes at the first closing mark behind it.

  The text is first taken apart (`Pattern.ofChars`) and then expanded, which meets the failures
  in the order of the text: those of the earlier spans, then the excess of values, and an
  unclosed span last.

  Main facts:
    * `toChars_ofChars` — taking a text apart loses nothing.
-/
import DesignTokens.Range.Walk

namespace DesignTokens.Range

/-! ## §1. Patterns -/

/-- The mark that opens a span. -/
def openMark : List Char := ['$', '[', '[']

/-- The mark that closes a span. -/
def closeMark : List Char := [']', ']']

/-- A text taken apart at its spans. -/
inductive Pattern where
  /-- The text behind the last span. -/
  | tail (text : List Char)
  /-- The text in front of a span that is not closed, and what stands behind its mark. -/
  | unclosed (before behind : List Char)
  /-- The text in front of a span, what the span holds, and what follows. -/
  | span (before body : List Char) (rest : Pattern)
deriving Repr, DecidableEq, Inhabited

/-- Takes a text apart at its spans. -/
def Pattern.ofChars (s : List Char) : Pattern :=
  match _hopen : Text.cut? openMark s with
  | none => .tail s
  | some (before, behind) =>
    match _hclose : Text.cut? closeMark behind with
    | none => .unclosed before behind
    | some (body, rest) => .span before body (.ofChars rest)
termination_by s.length
decreasing_by
  have h₁ := Text.length_of_cut? (by decide) _hopen
  have h₂ := Text.length_of_cut? (by decide) _hclose
  omega

/-- The text that a pattern was taken from. -/
def Pattern.toChars : Pattern → List Char
  | .tail text => text
  | .unclosed before behind => before ++ openMark ++ behind
  | .span before body rest => before ++ openMark ++ body ++ closeMark ++ rest.toChars

/-- Taking a text apart loses nothing. -/
theorem Pattern.toChars_ofChars (s : List Char) : (Pattern.ofChars s).toChars = s := by
  fun_induction Pattern.ofChars s with
  | case1 s h => rfl
  | case2 s before behind hopen hclose => exact (Text.eq_of_cut? hopen).symm
  | case3 s before behind hopen body rest hclose ih =>
    rw [Pattern.toChars, ih, Text.eq_of_cut? hopen, Text.eq_of_cut? hclose]
    simp

/-! ## §2. Expansion -/

/-- Every text of `starts` continued by `between` and every value, the start varying slowest. -/
def continued (starts : List String) (between : List Char) (values : List String) :
    List String :=
  starts.flatMap fun start => values.map fun value => start ++ String.ofList between ++ value

/-- The values of a pattern behind texts that have been put together so far. -/
def Pattern.expandFrom (input : String) (starts : List String) :
    Pattern → Except RangeError (List String)
  | .tail text => .ok (starts.map (· ++ String.ofList text))
  | .unclosed _ _ => .error (.unclosed input)
  | .span before body rest => do
    let values ← expandSpan body
    if maxExpansion < starts.length * values.length then .error (.tooLarge input)
    else rest.expandFrom input (continued starts before values)

/-- Whether a text opens a span. -/
def hasRange (input : String) : Bool := Text.occursIn openMark input.toList

/-- The values that a text stands for. -/
def expand (input : String) : Except RangeError (List String) :=
  (Pattern.ofChars input.toList).expandFrom input [""]

/-! ## §3. Laws -/

/-- A text that opens no span stands for itself. -/
theorem expand_of_not_hasRange {input : String} (h : hasRange input = false) :
    expand input = .ok [input] := by
  have hcut : Text.cut? openMark input.toList = none := by
    simpa [hasRange, Text.occursIn] using h
  have hpattern : Pattern.ofChars input.toList = .tail input.toList := by
    rw [Pattern.ofChars]
    split
    · rfl
    · next h' => simp [hcut] at h'
  simp [expand, hpattern, Pattern.expandFrom]

end DesignTokens.Range
