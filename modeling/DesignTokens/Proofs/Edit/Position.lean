/-
  DesignTokens.Proofs.Edit.Position — every position of an array has one spelling.

  A segment other than the dash names a position only when it is the decimal numeral of that
  position, without a leading zero.  The numeral of a number is what `toString` writes, so the
  spelling of a position is a function of the position.

  Main facts:
    * `shortestNumeral?_eq_some_iff` — the shortest numerals are those that are written.
    * `position_eq_ok_iff` — which segments name which positions.
-/
import DesignTokens.Edit.Position

namespace DesignTokens.Edit

open Number (numeralValue digitValue)

/-! ## §1. Digits -/

theorem numeralValue_concat (base : Nat) (digits : List Char) (c : Char) :
    numeralValue base (digits ++ [c]) = numeralValue base digits * base + digitValue c := by
  unfold numeralValue
  rw [List.foldl_append]
  rfl

theorem digitValue_lt_ten {c : Char} (h : c.isDigit = true) : digitValue c < 10 := by
  unfold digitValue
  rw [if_pos h]
  simp only [Char.isDigit, Bool.and_eq_true, decide_eq_true_eq] at h
  have hle : c.toNat ≤ 57 := h.2
  have hzero : '0'.toNat = 48 := rfl
  omega

/-- A digit is written as itself. -/
theorem digitChar_digitValue {c : Char} (h : c.isDigit = true) :
    (digitValue c).digitChar = c := by
  have hlt : digitValue c < 10 := digitValue_lt_ten h
  apply Char.toNat_inj.1
  rw [Nat.toNat_digitChar_of_lt_ten hlt]
  unfold digitValue
  rw [if_pos h]
  simp only [Char.isDigit, Bool.and_eq_true, decide_eq_true_eq] at h
  have hge : 48 ≤ c.toNat := h.1
  have hzero : '0'.toNat = 48 := rfl
  omega

theorem digitValue_digitChar {n : Nat} (h : n < 10) : digitValue n.digitChar = n := by
  unfold digitValue
  rw [if_pos (by simpa using h)]
  have htoNat : n.digitChar.toNat = 48 + n := Nat.toNat_digitChar_of_lt_ten h
  have hzero : '0'.toNat = 48 := rfl
  omega

/-! ## §2. Numerals -/

/-- The numeral of a number reads back as the number. -/
theorem numeralValue_toDigits (n : Nat) : numeralValue 10 (Nat.toDigits 10 n) = n := by
  induction n using Nat.strongRecOn with
  | ind n ih =>
    by_cases hlt : n < 10
    · rw [Nat.toDigits_of_lt_base hlt]
      show 0 * 10 + digitValue n.digitChar = n
      rw [digitValue_digitChar hlt]
      omega
    · have hmod : n % 10 < 10 := Nat.mod_lt n (by omega)
      rw [Nat.toDigits_of_base_le (by omega) (by omega), numeralValue_concat,
        ih (n / 10) (by omega), digitValue_digitChar hmod]
      omega

/-- Digits that start with another digit than zero are the numeral of their value. -/
theorem toDigits_numeralValue {c : Char} (hdigit : c.isDigit = true) (hzero : c ≠ '0')
    {digits : List Char} (hdigits : digits.all Char.isDigit = true) :
    Nat.toDigits 10 (numeralValue 10 (c :: digits)) = c :: digits := by
  have hfirst : 0 < digitValue c := by
    rcases Nat.eq_zero_or_pos (digitValue c) with hz | hpos
    · rw [← digitChar_digitValue hdigit, hz] at hzero
      exact absurd rfl hzero
    · exact hpos
  -- the digits behind the first one are taken from the right, as `toDigits` puts them there
  have hall : ∀ back : List Char, (∀ d ∈ back, d.isDigit = true) →
      0 < numeralValue 10 (c :: back.reverse) ∧
        Nat.toDigits 10 (numeralValue 10 (c :: back.reverse)) = c :: back.reverse := by
    intro back
    induction back with
    | nil =>
      intro _
      have hvalue : numeralValue 10 [c] = digitValue c := by
        show 0 * 10 + digitValue c = digitValue c
        omega
      rw [List.reverse_nil, hvalue, Nat.toDigits_of_lt_base (digitValue_lt_ten hdigit),
        digitChar_digitValue hdigit]
      exact ⟨hfirst, rfl⟩
    | cons d back ih =>
      intro hback
      have hd : d.isDigit = true := hback d List.mem_cons_self
      obtain ⟨hpos, hdigits⟩ := ih fun x hx => hback x (List.mem_cons_of_mem _ hx)
      have hvalue : numeralValue 10 (c :: (d :: back).reverse)
          = 10 * numeralValue 10 (c :: back.reverse) + digitValue d := by
        rw [List.reverse_cons, ← List.cons_append, numeralValue_concat]
        omega
      refine ⟨by omega, ?_⟩
      rw [hvalue, ← Nat.toDigits_append_toDigits (by omega) hpos (digitValue_lt_ten hd),
        hdigits, Nat.toDigits_of_lt_base (digitValue_lt_ten hd), digitChar_digitValue hd,
        List.reverse_cons, List.cons_append]
  have hback := (hall digits.reverse fun d hd =>
    List.all_eq_true.1 hdigits d (List.mem_reverse.1 hd)).2
  rwa [List.reverse_reverse] at hback

/-- The numeral of a number other than zero starts with another digit than zero. -/
theorem head_toDigits {n : Nat} (hn : 0 < n) :
    ∃ c digits, Nat.toDigits 10 n = c :: digits ∧ c ≠ '0' := by
  induction n using Nat.strongRecOn with
  | ind n ih =>
    by_cases hlt : n < 10
    · refine ⟨n.digitChar, [], Nat.toDigits_of_lt_base hlt, ?_⟩
      intro hzero
      have : n = 0 := Nat.digitChar_eq_zero.1 hzero
      omega
    · obtain ⟨c, digits, hdigits, hc⟩ := ih (n / 10) (by omega) (by omega)
      refine ⟨c, digits ++ [(n % 10).digitChar], ?_, hc⟩
      rw [Nat.toDigits_of_base_le (by omega) (by omega), hdigits, List.cons_append]

theorem toDigits_ne_nil (n : Nat) : Nat.toDigits 10 n ≠ [] :=
  List.ne_nil_of_length_pos Nat.length_toDigits_pos

theorem isDigit_of_mem_toDigits {n : Nat} {c : Char} (h : c ∈ Nat.toDigits 10 n) :
    c.isDigit = true :=
  Nat.isDigit_of_mem_toDigits (by omega) (by omega) h

theorem toList_ofNat (n : Nat) : (toString (Int.ofNat n)).toList = Nat.toDigits 10 n :=
  Nat.toList_repr

theorem toList_negSucc (n : Nat) :
    (toString (Int.negSucc n)).toList = '-' :: Nat.toDigits 10 (n + 1) := by
  show ("-" ++ Nat.repr (n + 1)).toList = _
  rw [String.toList_append, Nat.toList_repr]
  rfl

/-- **The shortest numerals are those that are written.** -/
theorem shortestNumeral?_eq_some_iff {digits : List Char} {n : Nat} :
    shortestNumeral? digits = some n ↔ digits = Nat.toDigits 10 n := by
  constructor
  · intro h
    unfold shortestNumeral? at h
    split at h
    · obtain rfl : 0 = n := by simpa using h
      rw [Nat.toDigits_zero]
    · next c rest _ =>
      split at h
      · next hc =>
        obtain ⟨hdigit, hzero, hrest⟩ := hc
        obtain rfl : numeralValue 10 (c :: rest) = n := by simpa using h
        exact (toDigits_numeralValue hdigit hzero hrest).symm
      · simp at h
    · simp at h
  · rintro rfl
    rcases Nat.eq_zero_or_pos n with rfl | hpos
    · rw [Nat.toDigits_zero]
      rfl
    · obtain ⟨c, rest, hdigits, hzero⟩ := head_toDigits hpos
      have hall : ∀ d ∈ c :: rest, d.isDigit = true := by
        intro d hd
        rw [← hdigits] at hd
        exact isDigit_of_mem_toDigits hd
      have hc : c.isDigit = true := hall c List.mem_cons_self
      have hrest : rest.all Char.isDigit = true :=
        List.all_eq_true.2 fun d hd => hall d (List.mem_cons_of_mem _ hd)
      rw [hdigits, shortestNumeral?, if_pos ⟨hc, hzero, hrest⟩, ← hdigits,
        numeralValue_toDigits]
      intro hc0
      exact absurd (by simpa using hc0) hzero

/-! ## §3. Positions -/

theorem toString_ne_dash (n : Nat) : toString n ≠ "-" := by
  intro h
  have hmem : '-' ∈ Nat.toDigits 10 n := by
    rw [← Nat.toList_repr, ← Nat.toString_eq_repr, h]
    decide
  have hdigit : '-'.isDigit = true := isDigit_of_mem_toDigits hmem
  exact absurd hdigit (by decide)

/-- The text of a numeral, character by character. -/
theorem toList_eq_toDigits_iff {segment : String} {n : Nat} :
    segment.toList = Nat.toDigits 10 n ↔ segment = toString n := by
  rw [← Nat.toList_repr, ← Nat.toString_eq_repr, String.toList_inj]

/-- Numbers that are written alike are equal. -/
theorem eq_of_toString_eq {m n : Nat} (h : toString m = toString n) : m = n := by
  have hdigits : Nat.toDigits 10 m = Nat.toDigits 10 n := by
    rw [← Nat.toList_repr, ← Nat.toList_repr, ← Nat.toString_eq_repr, h, Nat.toString_eq_repr]
  rw [← numeralValue_toDigits m, hdigits, numeralValue_toDigits]

/-- **Which segments name which positions.**  The dash names the end; any other segment that
    names a position is the numeral of that position. -/
theorem position_eq_ok_iff {place : Pointer} {segment : String} {length index : Nat} :
    position place segment length = .ok index ↔
      (segment = "-" ∧ index = length) ∨
        (segment = toString index ∧ index < positionBound ∧ index ≤ length) := by
  unfold position
  by_cases hdash : segment = "-"
  · subst hdash
    have hne : ∀ n : Nat, "-" ≠ toString n := fun n h => toString_ne_dash n h.symm
    rw [if_pos rfl]
    constructor
    · intro h
      exact Or.inl ⟨rfl, by simpa using h.symm⟩
    · rintro (⟨-, rfl⟩ | ⟨h, -, -⟩)
      · rfl
      · exact absurd h (hne index)
  · rw [if_neg hdash]
    constructor
    · intro h
      split at h
      · simp at h
      · next n hn =>
        split at h
        · simp at h
        · next hbound =>
          split at h
          · simp at h
          · next hle =>
            obtain rfl : n = index := by simpa using h
            have hsegment := toList_eq_toDigits_iff.1 (shortestNumeral?_eq_some_iff.1 hn)
            exact Or.inr ⟨hsegment, by omega, by omega⟩
    · rintro (⟨h, -⟩ | ⟨hsegment, hbound, hle⟩)
      · exact absurd h hdash
      · have hn : shortestNumeral? segment.toList = some index :=
          shortestNumeral?_eq_some_iff.2 (toList_eq_toDigits_iff.2 hsegment)
        rw [hn]
        dsimp only
        rw [if_neg (by omega), if_neg (by omega)]

/-- The numeral of a position names it, from wherever it is met. -/
theorem position_toString {place : Pointer} {length index : Nat} (bound : index < positionBound)
    (h : index ≤ length) : position place (toString index) length = .ok index :=
  position_eq_ok_iff.2 (Or.inr ⟨rfl, bound, h⟩)

end DesignTokens.Edit
