/-
  DesignTokens.Proofs.Edit.Canonical — the one spelling of a position.

  A number has many decimal numerals, one for each number of leading zeros, and one of them is
  shortest.  A segment that meets an array is a position exactly when it is the shortest numeral
  of one, or the dash.  The other segments fail in two ways, which have nothing to do with each
  other's numbers: a shortest numeral of a 64-bit number is out of range, and anything else is no
  position at all, be it a word, a numeral with a sign or a leading zero, or a number past 64
  bits.

  Main facts:
    * `exists_zeros_of_isNumeral` — the numerals of a number differ in their leading zeros.
    * `isShortestNumeral_iff` — the shortest one is the one that is written.
    * `position_of_numeral`, `position_of_no_numeral` — what a segment comes to, by the numeral
      that it is.
-/
import DesignTokens.Proofs.Edit.Position

namespace DesignTokens.Edit

open Number (numeralValue digitValue)

/-! ## §1. Numerals -/

/-- The text is a decimal numeral of the number; leading zeros are allowed. -/
def IsNumeral (digits : List Char) (n : Nat) : Prop :=
  digits ≠ [] ∧ digits.all Char.isDigit = true ∧ numeralValue 10 digits = n

/-- The text is a decimal numeral of the number, and no numeral of it is shorter. -/
def IsShortestNumeral (digits : List Char) (n : Nat) : Prop :=
  IsNumeral digits n ∧ ∀ others, IsNumeral others n → digits.length ≤ others.length

theorem isNumeral_toDigits (n : Nat) : IsNumeral (Nat.toDigits 10 n) n :=
  ⟨toDigits_ne_nil n, List.all_eq_true.2 fun _ hc => isDigit_of_mem_toDigits hc,
    numeralValue_toDigits n⟩

/-- A leading zero does not change the value. -/
theorem numeralValue_zero_cons (digits : List Char) :
    numeralValue 10 ('0' :: digits) = numeralValue 10 digits := by
  unfold numeralValue
  rw [List.foldl_cons]
  rfl

/-- **The numerals of a number differ in their leading zeros** alone. -/
theorem exists_zeros_of_isNumeral {digits : List Char} {n : Nat} (h : IsNumeral digits n) :
    ∃ zeros, digits = List.replicate zeros '0' ++ Nat.toDigits 10 n := by
  induction digits with
  | nil => exact absurd rfl h.1
  | cons c digits ih =>
    obtain ⟨-, hall, hvalue⟩ := h
    obtain ⟨hdigit, hdigits⟩ := Bool.and_eq_true_iff.1 hall
    by_cases hzero : c = '0'
    · subst hzero
      rw [numeralValue_zero_cons] at hvalue
      by_cases hnil : digits = []
      · subst hnil
        subst hvalue
        exact ⟨0, rfl⟩
      · obtain ⟨zeros, hzeros⟩ := ih ⟨hnil, hdigits, hvalue⟩
        exact ⟨zeros + 1, congrArg ('0' :: ·) hzeros⟩
    · subst hvalue
      exact ⟨0, (toDigits_numeralValue hdigit hzero hdigits).symm⟩

/-- **The shortest numeral of a number is the one that is written.** -/
theorem isShortestNumeral_iff {digits : List Char} {n : Nat} :
    IsShortestNumeral digits n ↔ digits = Nat.toDigits 10 n := by
  constructor
  · rintro ⟨hnumeral, hleast⟩
    obtain ⟨zeros, hzeros⟩ := exists_zeros_of_isNumeral hnumeral
    have hle := hleast _ (isNumeral_toDigits n)
    rw [hzeros, List.length_append, List.length_replicate] at hle
    obtain rfl : zeros = 0 := by omega
    exact hzeros
  · rintro rfl
    refine ⟨isNumeral_toDigits n, fun others hothers => ?_⟩
    obtain ⟨zeros, hzeros⟩ := exists_zeros_of_isNumeral hothers
    rw [hzeros, List.length_append]
    omega

theorem isShortestNumeral_toString (n : Nat) : IsShortestNumeral (toString n).toList n :=
  isShortestNumeral_iff.2 (toList_eq_toDigits_iff.2 rfl)

/-- The reader of shortest numerals reads just those. -/
theorem shortestNumeral?_eq_some {digits : List Char} {n : Nat} :
    shortestNumeral? digits = some n ↔ IsShortestNumeral digits n :=
  shortestNumeral?_eq_some_iff.trans isShortestNumeral_iff.symm

/-! ## §2. What a segment comes to -/

variable {place : Pointer} {segment : String} {length index : Nat}

theorem position_of_numeral (h : IsShortestNumeral segment.toList index) :
    position place segment length =
      if positionBound ≤ index then .error (.invalidIndex place segment)
      else if length < index then .error (.indexOutOfRange place index length)
      else .ok index := by
  have hdash : segment ≠ "-" := by
    rintro rfl
    have hdigit := h.1.2.1
    exact absurd hdigit (by decide)
  rw [position, if_neg hdash, shortestNumeral?_eq_some.2 h]

theorem position_of_no_numeral (hdash : segment ≠ "-")
    (h : ∀ n, ¬ IsShortestNumeral segment.toList n) :
    position place segment length = .error (.invalidIndex place segment) := by
  have hnone : shortestNumeral? segment.toList = none := by
    cases hn : shortestNumeral? segment.toList with
    | none => rfl
    | some n => exact absurd (shortestNumeral?_eq_some.1 hn) (h n)
  rw [position, if_neg hdash, hnone]

/-- **Which segments are out of range**: the shortest numerals of 64-bit numbers that lie beyond
    the end. -/
theorem position_eq_indexOutOfRange_iff :
    position place segment length = .error (.indexOutOfRange place index length) ↔
      length < index ∧ index < positionBound ∧ IsShortestNumeral segment.toList index := by
  constructor
  · intro h
    by_cases hdash : segment = "-"
    · rw [position, if_pos hdash] at h
      cases h
    · by_cases hnumeral : ∃ n, IsShortestNumeral segment.toList n
      · obtain ⟨n, hn⟩ := hnumeral
        rw [position_of_numeral hn] at h
        split at h
        · cases h
        · next hbound =>
          split at h
          · next hfar =>
            cases h
            exact ⟨hfar, by omega, hn⟩
          · cases h
      · rw [position_of_no_numeral hdash (not_exists.1 hnumeral)] at h
        cases h
  · rintro ⟨hfar, hbound, hn⟩
    rw [position_of_numeral hn, if_neg (by omega), if_pos hfar]

/-- **Which segments are no positions**: those that are neither the dash nor the shortest numeral
    of a 64-bit number. -/
theorem position_eq_invalidIndex_iff :
    position place segment length = .error (.invalidIndex place segment) ↔
      segment ≠ "-" ∧ ∀ n < positionBound, ¬ IsShortestNumeral segment.toList n := by
  constructor
  · intro h
    refine ⟨?_, fun n hbound hn => ?_⟩
    · intro hdash
      rw [position, if_pos hdash] at h
      cases h
    · rw [position_of_numeral hn, if_neg (by omega)] at h
      split at h <;> cases h
  · rintro ⟨hdash, hnone⟩
    by_cases hnumeral : ∃ n, IsShortestNumeral segment.toList n
    · obtain ⟨n, hn⟩ := hnumeral
      have hbound : positionBound ≤ n := Nat.le_of_not_lt fun hlt => hnone n hlt hn
      rw [position_of_numeral hn, if_pos hbound]
    · exact position_of_no_numeral hdash (not_exists.1 hnumeral)

/-- A segment names a position that its array can have. -/
theorem position_eq_ok_iff_shortest (hlength : length < positionBound) :
    position place segment length = .ok index ↔
      segment = "-" ∧ index = length ∨
        index ≤ length ∧ IsShortestNumeral segment.toList index := by
  rw [position_eq_ok_iff, ← toList_eq_toDigits_iff, ← isShortestNumeral_iff]
  refine or_congr Iff.rfl ⟨fun ⟨hn, _, hle⟩ => ⟨hle, hn⟩, fun ⟨hle, hn⟩ => ⟨hn, by omega, hle⟩⟩

/-! ## §3. One spelling -/

/-- **Positions have one spelling.**  In an array whose length is a 64-bit number, a segment
    names the end if it is the dash, and an item or the end if it is its shortest numeral; the
    shortest numeral of a greater 64-bit number is out of range, and every other segment is no
    position.  Two segments other than the dash that name the same position, in whatever arrays,
    are the same. -/
theorem position_canonical (hlength : length < positionBound) (place : Pointer)
    (segment : String) :
    (∀ index, position place segment length = .ok index ↔
      segment = "-" ∧ index = length ∨
        index ≤ length ∧ IsShortestNumeral segment.toList index) ∧
    (∀ n, position place segment length = .error (.indexOutOfRange place n length) ↔
      length < n ∧ n < positionBound ∧ IsShortestNumeral segment.toList n) ∧
    (position place segment length = .error (.invalidIndex place segment) ↔
      ¬ (segment = "-" ∨ (∃ index ≤ length, IsShortestNumeral segment.toList index) ∨
        ∃ n, length < n ∧ n < positionBound ∧ IsShortestNumeral segment.toList n)) ∧
    (∀ (other : String) (otherPlace : Pointer) (otherLength index : Nat),
      segment ≠ "-" → other ≠ "-" → position place segment length = .ok index →
        position otherPlace other otherLength = .ok index → segment = other) := by
  refine ⟨fun _ => position_eq_ok_iff_shortest hlength, fun _ => position_eq_indexOutOfRange_iff,
    ?_, ?_⟩
  · rw [position_eq_invalidIndex_iff, not_or]
    refine and_congr_right fun _ => ⟨?_, ?_⟩
    · rintro hnone (⟨n, hle, hn⟩ | ⟨n, -, hbound, hn⟩)
      · exact hnone n (by omega) hn
      · exact hnone n hbound hn
    · intro hnone n hbound hn
      refine hnone ?_
      rcases Nat.lt_or_ge length n with hfar | hle
      · exact Or.inr ⟨n, hfar, hbound, hn⟩
      · exact Or.inl ⟨n, hle, hn⟩
  · intro other otherPlace otherLength index hdash hother hfirst hsecond
    obtain ⟨rfl, -⟩ := (position_eq_ok_iff.1 hfirst).resolve_left fun h => hdash h.1
    obtain ⟨rfl, -⟩ := (position_eq_ok_iff.1 hsecond).resolve_left fun h => hother h.1
    rfl

/-- Behind the last of two items, beyond it, and with a leading zero. -/
theorem position_canonical_list :
    2 < positionBound ∧
      position ⟨["list", "2"]⟩ "2" 2 = .ok 2 ∧
      position ⟨["list", "3"]⟩ "3" 2 = .error (.indexOutOfRange ⟨["list", "3"]⟩ 3 2) ∧
      ¬ IsShortestNumeral "02".toList 2 := by
  have hlength : 2 < positionBound := by decide
  refine ⟨hlength, ?_, ?_, ?_⟩
  · exact ((position_canonical hlength _ "2").1 2).2
      (Or.inr ⟨Nat.le_refl 2, isShortestNumeral_toString 2⟩)
  · exact ((position_canonical hlength _ "3").2.1 3).2
      ⟨by decide, by decide, isShortestNumeral_toString 3⟩
  · rw [isShortestNumeral_iff]
    decide

end DesignTokens.Edit
