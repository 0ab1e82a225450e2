/-
  DesignTokens.Proofs.Range.Names — the names of a family and the checkpoints they stand for.

  Every family writes an index in one way, and a name that was written is read as a checkpoint
  of the family that wrote it, with the index it was written for.  Two families never share a
  name: numerals are digits, the standard names are a closed list, and what stands in front of
  the side letter of a size with an `x` is all `x`, ends in one, or starts with one.

  A checkpoint that was read keeps to the scale of its family: the standard names lie within
  one step of the middle, the names with an `x` at least two steps from it, and of these only
  the two that lie nearest are not strict.

  Main facts:
    * `proper_of_classify` — where the checkpoints of a family lie.
    * `classify_of_render` — a name that a family writes is read as its index.
    * `render_eq_none_of_continuous` — which families have no name for the end of a range.
-/
import DesignTokens.Proofs.Edit.Position
import DesignTokens.Range.Checkpoint

namespace DesignTokens.Range

open Number (numeralValue)
open Edit (numeralValue_toDigits isDigit_of_mem_toDigits toDigits_ne_nil toList_ofNat
  toList_negSucc)

/-! ## §1. Where checkpoints lie -/

/-- The checkpoint lies where its family has names, and it is strict unless it bridges the
    tiers. -/
def Checkpoint.Proper (c : Checkpoint) : Prop :=
  match c.family with
  | .serial => c.strict = true ∧ holdsIndex c.index = true
  | .standardSingle | .standardDouble => c.strict = true ∧ c.index.natAbs ≤ 1
  | .extra => 2 ≤ c.index.natAbs ∧ (c.strict = true ↔ c.index.natAbs ≠ 2)
  | .numberExtra | .extraNumber =>
    c.strict = true ∧ 2 ≤ c.index.natAbs ∧ c.index.natAbs < Nat.pow 2 63

theorem natAbs_sign_mul {c : Char} {sign : Int} (h : sideSign? c = some sign) (n : Nat) :
    (sign * (n + 1)).natAbs = n + 1 := by
  have hsign : sign.natAbs = 1 := by
    unfold sideSign? at h
    split at h <;> cases h <;> rfl
  rw [Int.natAbs_mul, hsign]
  omega

theorem count?_eq_some {digits : List Char} {n : Nat} (h : count? digits = some n) :
    1 ≤ n ∧ n < Nat.pow 2 63 := by
  unfold count? at h
  split at h
  · cases h
  · dsimp only at h
    split at h
    · next hn => cases h; exact hn
    · cases h

theorem extraIndex?_eq_some {sign index : Int} {n : Nat} (h : extraIndex? sign n = some index) :
    n + 1 < Nat.pow 2 63 ∧ index = sign * (n + 1) := by
  unfold extraIndex? at h
  split at h
  · next hn => cases h; exact ⟨hn, rfl⟩
  · cases h

theorem proper_of_standard? {name : List Char} {c : Checkpoint} (h : standard? name = some c) :
    c.Proper := by
  unfold standard? at h
  split at h <;> cases h <;> exact ⟨rfl, by decide⟩

/-- A counted tier lies beyond the standard one, on its side. -/
theorem proper_of_counted {side : Char} {sign : Int} (hsign : sideSign? side = some sign)
    {family : Family} (hfamily : family = .numberExtra ∨ family = .extraNumber) {n : Nat}
    (hn : 1 ≤ n) {c : Checkpoint}
    (h : (extraIndex? sign n).map (fun index => (⟨family, index, true⟩ : Checkpoint)) = some c) :
    c.Proper := by
  obtain ⟨index, hindex, rfl⟩ := Option.map_eq_some_iff.1 h
  obtain ⟨hbound, rfl⟩ := extraIndex?_eq_some hindex
  have habs : (sign * ((n : Int) + 1)).natAbs = n + 1 := natAbs_sign_mul hsign n
  rcases hfamily with rfl | rfl
  · exact ⟨rfl, by dsimp only; omega, by dsimp only; omega⟩
  · exact ⟨rfl, by dsimp only; omega, by dsimp only; omega⟩

theorem proper_of_extraTier? {side : Char} {sign : Int} (hsign : sideSign? side = some sign)
    {body : List Char} {c : Checkpoint} (h : extraTier? sign body = some c) : c.Proper := by
  unfold extraTier? at h
  split at h
  · next hbody =>
    -- a run of `x` lies as many steps beyond the standard tier as it is long
    have hne : body ≠ [] := by
      rintro rfl
      simp at hbody
    have hlength : 0 < body.length := List.length_pos_iff.2 hne
    have habs : (sign * ((body.length : Int) + 1)).natAbs = body.length + 1 :=
      natAbs_sign_mul hsign body.length
    cases h
    refine ⟨?_, ?_⟩
    · dsimp only
      omega
    · dsimp only
      rw [decide_eq_true_eq]
      omega
  · split at h
    · next n hn =>
      refine proper_of_counted hsign (Or.inl rfl) ?_ h
      unfold extraTier?.numberExtra? at hn
      split at hn
      · exact (count?_eq_some hn).1
      · cases hn
    · split at h
      · next n hn =>
        refine proper_of_counted hsign (Or.inr rfl) ?_ h
        unfold extraTier?.extraNumber? at hn
        split at hn
        · exact (count?_eq_some hn).1
        · cases hn
      · cases h

/-- **Where the checkpoints of a family lie.** -/
theorem proper_of_classify {name : List Char} {c : Checkpoint} (h : classify name = some c) :
    c.Proper := by
  by_cases hnumeral : isNumeral name = true
  · have hc : c = ⟨.serial, numeralIndex name, true⟩ := index_of_classify_serial hnumeral h
    rw [classify, if_pos hnumeral] at h
    split at h
    · next hholds =>
      subst hc
      exact ⟨rfl, hholds⟩
    · cases h
  · rw [classify, if_neg hnumeral] at h
    split at h
    · next checkpoint hstandard =>
      cases h
      exact proper_of_standard? hstandard
    · split at h
      · next body side _ =>
        obtain ⟨sign, hsign, htier⟩ := Option.bind_eq_some_iff.1 h
        exact proper_of_extraTier? hsign htier
      · cases h

/-! ## §2. Names that were written -/

/-- The digits of a number are no empty text, and there is nothing but digits in them. -/
theorem digits_toDigits (n : Nat) :
    (!(Nat.toDigits 10 n).isEmpty && (Nat.toDigits 10 n).all Char.isDigit) = true := by
  rw [Bool.and_eq_true, Bool.not_eq_true', List.isEmpty_eq_false_iff]
  exact ⟨toDigits_ne_nil n, List.all_eq_true.2 fun c hc => isDigit_of_mem_toDigits hc⟩

/-- An integer is written as a numeral, which reads back as the integer. -/
theorem numeral_toString (index : Int) :
    isNumeral (toString index).toList = true ∧ numeralIndex (toString index).toList = index := by
  cases index with
  | ofNat n =>
    -- the first character is a digit, so it is no minus sign
    have hfirst : ∀ rest, Nat.toDigits 10 n ≠ '-' :: rest := by
      intro rest hrest
      have hdash : '-'.isDigit = true := isDigit_of_mem_toDigits (n := n) (by simp [hrest])
      exact absurd hdash (by decide)
    rw [toList_ofNat]
    constructor
    · unfold isNumeral
      split
      · next digits hdigits => exact absurd hdigits (hfirst digits)
      · exact digits_toDigits n
    · unfold numeralIndex
      split
      · next digits hdigits => exact absurd hdigits (hfirst digits)
      · rw [numeralValue_toDigits]
        rfl
  | negSucc n =>
    rw [toList_negSucc]
    constructor
    · exact digits_toDigits (n + 1)
    · show -(numeralValue 10 (Nat.toDigits 10 (n + 1)) : Int) = Int.negSucc n
      rw [numeralValue_toDigits]
      rfl

theorem count?_toDigits {n : Nat} (hpos : 1 ≤ n) (hbound : n < Nat.pow 2 63) :
    count? (Nat.toDigits 10 n) = some n := by
  have hdigits := digits_toDigits n
  rw [Bool.and_eq_true, Bool.not_eq_true'] at hdigits
  unfold count?
  rw [if_neg (by simp [hdigits])]
  dsimp only
  rw [numeralValue_toDigits, if_pos ⟨hpos, hbound⟩]

theorem splitLast?_append_singleton (body : List Char) (side : Char) :
    splitLast? (body ++ [side]) = some (body, side) := by
  unfold splitLast?
  rw [List.getLast?_concat, Option.map_some, List.dropLast_concat]

/-- The sign of the side that an index lies on. -/
theorem sideSign?_sideLetter {index : Int} (h : 2 ≤ index.natAbs) :
    ∃ sign, sideSign? (sideLetter index) = some sign ∧
      sign * (((index.natAbs - 1 : Nat) : Int) + 1) = index := by
  unfold sideLetter
  split
  · exact ⟨-1, rfl, by omega⟩
  · exact ⟨1, rfl, by omega⟩

/-- A name that ends in a side letter is no numeral. -/
theorem not_isNumeral_append_side (body : List Char) (index : Int) :
    isNumeral (body ++ [sideLetter index]) = false := by
  have hside : (sideLetter index).isDigit = false := by
    unfold sideLetter
    split <;> rfl
  have hall : ∀ digits : List Char, sideLetter index ∈ digits →
      (!digits.isEmpty && digits.all Char.isDigit) = false := by
    intro digits hmem
    rw [Bool.and_eq_false_iff, List.all_eq_false]
    exact Or.inr ⟨_, hmem, by rw [hside]; exact Bool.false_ne_true⟩
  unfold isNumeral
  split
  · next digits hdigits =>
    refine hall digits ?_
    -- the minus sign is not the side letter, so the letter stands behind it
    have hmem : sideLetter index ∈ '-' :: digits := hdigits ▸ (by simp)
    rcases List.mem_cons.1 hmem with hdash | hmem
    · unfold sideLetter at hdash
      split at hdash <;> exact absurd hdash (by decide)
    · exact hmem
  · exact hall _ (by simp)

/-- A name with an `x` in front of its side letter is none of the standard tier. -/
theorem standard?_append_side {body : List Char} (hx : 'x' ∈ body) (side : Char) :
    standard? (body ++ [side]) = none := by
  have hmem : 'x' ∈ body ++ [side] := List.mem_append_left _ hx
  unfold standard?
  split <;> first | rfl | (next hname => rw [hname] at hmem; exact absurd hmem (by decide))

/-- A name that ends in a side letter is read by what stands in front of it. -/
theorem classify_append_side {body : List Char} (hx : 'x' ∈ body) {index : Int}
    {sign : Int} (hsign : sideSign? (sideLetter index) = some sign) :
    classify (body ++ [sideLetter index]) = extraTier? sign body := by
  unfold classify
  rw [if_neg (by rw [not_isNumeral_append_side]; exact Bool.false_ne_true),
    standard?_append_side hx, splitLast?_append_singleton]
  dsimp only
  rw [hsign]
  rfl

/-- A name with an `x` is read as its index, if what stands in front of its side letter is read
    as that many steps, on whichever side. -/
theorem index_of_append_side {body : List Char} (hx : 'x' ∈ body) {index : Int}
    (hfar : 2 ≤ index.natAbs) {family : Family} {strict : Bool}
    (htier : ∀ sign, extraTier? sign body
      = some ⟨family, sign * (((index.natAbs - 1 : Nat) : Int) + 1), strict⟩) :
    ∃ c, classify (body ++ [sideLetter index]) = some c ∧ c.index = index := by
  obtain ⟨sign, hsign, hindex⟩ := sideSign?_sideLetter hfar
  exact ⟨_, (classify_append_side hx hsign).trans (htier sign), hindex⟩

/-- Digits, with an `x` in front or behind, are no run of `x`. -/
theorem not_all_x {n : Nat} {body : List Char} (h : ∀ c ∈ Nat.toDigits 10 n, c ∈ body) :
    (!body.isEmpty && body.all (· == 'x')) = false := by
  obtain ⟨c, hc⟩ := List.exists_mem_of_ne_nil _ (toDigits_ne_nil n)
  rw [Bool.and_eq_false_iff, List.all_eq_false]
  refine Or.inr ⟨c, h c hc, ?_⟩
  intro hx
  have hdigit : 'x'.isDigit = true := by
    rw [← eq_of_beq hx]
    exact isDigit_of_mem_toDigits hc
  exact absurd hdigit (by decide)

theorem extraTier?_x (sign : Int) {n : Nat} (hn : 1 ≤ n) :
    extraTier? sign (List.replicate n 'x') = some ⟨.extra, sign * (n + 1), n ≠ 1⟩ := by
  unfold extraTier?
  rw [if_pos, List.length_replicate]
  rw [Bool.and_eq_true, Bool.not_eq_true', List.isEmpty_eq_false_iff, List.all_eq_true]
  refine ⟨?_, fun c hc => ?_⟩
  · rw [Ne, List.replicate_eq_nil_iff]
    omega
  · rw [List.eq_of_mem_replicate hc]
    exact BEq.rfl

theorem extraTier?_number_x {sign : Int} {n : Nat} (hn : 1 ≤ n) (hbound : n + 1 < Nat.pow 2 63) :
    extraTier? sign (Nat.toDigits 10 n ++ ['x']) = some ⟨.numberExtra, sign * (n + 1), true⟩ := by
  have hcount : extraTier?.numberExtra? (Nat.toDigits 10 n ++ ['x']) = some n := by
    unfold extraTier?.numberExtra?
    rw [splitLast?_append_singleton]
    exact count?_toDigits hn (by omega)
  unfold extraTier?
  rw [if_neg, hcount]
  · dsimp only
    rw [extraIndex?, if_pos hbound]
    rfl
  · rw [not_all_x fun c hc => List.mem_append_left _ hc]
    exact Bool.false_ne_true

theorem extraTier?_x_number {sign : Int} {n : Nat} (hn : 1 ≤ n) (hbound : n + 1 < Nat.pow 2 63) :
    extraTier? sign ('x' :: Nat.toDigits 10 n) = some ⟨.extraNumber, sign * (n + 1), true⟩ := by
  -- the body ends in a digit, so it is no number in front of an `x`
  have hlast : extraTier?.numberExtra? ('x' :: Nat.toDigits 10 n) = none := by
    obtain ⟨front, c, hfront⟩ : ∃ front c, Nat.toDigits 10 n = front ++ [c] := by
      rcases List.eq_nil_or_concat (Nat.toDigits 10 n) with hnil | ⟨front, c, hfront⟩
      · exact absurd hnil (toDigits_ne_nil n)
      · exact ⟨front, c, hfront.trans List.concat_eq_append⟩
    have hdigit : c.isDigit = true := isDigit_of_mem_toDigits (n := n) (by simp [hfront])
    unfold extraTier?.numberExtra?
    rw [hfront, ← List.cons_append, splitLast?_append_singleton]
    split
    · next digits hsplit =>
      obtain ⟨-, rfl⟩ := Prod.mk.inj (Option.some.inj hsplit)
      exact absurd hdigit (by decide)
    · rfl
  have hcount : extraTier?.extraNumber? ('x' :: Nat.toDigits 10 n) = some n :=
    count?_toDigits hn (by omega)
  unfold extraTier?
  rw [if_neg, hlast, hcount]
  · dsimp only
    rw [extraIndex?, if_pos hbound]
    rfl
  · rw [not_all_x fun c hc => List.mem_cons_of_mem _ hc]
    exact Bool.false_ne_true

/-! ## §3. Where families have names -/

/-- The standard names end next to the middle. -/
theorem render_eq_none_of_standard {family : Family} (hfamily : family.isStandard = true)
    {index : Int} (h : 2 ≤ index.natAbs) : family.render index = none := by
  have hleft : index ≠ -1 := by omega
  have hmiddle : index ≠ 0 := by omega
  have hright : index ≠ 1 := by omega
  cases family with
  | standardSingle | standardDouble =>
    unfold Family.render
    dsimp only
    rw [if_neg hleft, if_neg hmiddle, if_neg hright]
  | serial | extra | numberExtra | extraNumber => cases hfamily

/-- The names with an `x` begin behind the standard ones. -/
theorem render_eq_none_of_extra {family : Family} (hfamily : family.isExtra = true)
    {index : Int} (h : index.natAbs ≤ 1) : family.render index = none := by
  cases family with
  | extra | numberExtra | extraNumber =>
    unfold Family.render
    dsimp only
    rw [if_neg (by omega)]
  | serial | standardSingle | standardDouble => cases hfamily

/-- A single `x` is never counted. -/
theorem render_eq_none_of_counted {family : Family} (hfamily : family.isExtra = true)
    (hcounted : family ≠ .extra) {index : Int} (h : index.natAbs ≤ 2) :
    family.render index = none := by
  cases family with
  | numberExtra | extraNumber =>
    unfold Family.render
    dsimp only
    rw [if_neg (by omega)]
  | extra => exact absurd rfl hcounted
  | serial | standardSingle | standardDouble => cases hfamily

/-! ## §4. Reading what was written -/

/-- The names that a family has for an index are read with that index, as long as it is a
    signed 64-bit number where the family writes numbers. -/
def Family.Holds (family : Family) (index : Int) : Prop :=
  match family with
  | .serial => holdsIndex index = true
  | .numberExtra | .extraNumber => index.natAbs < Nat.pow 2 63
  | .standardSingle | .standardDouble | .extra => True

theorem classify_of_render_standard {family : Family} (hfamily : family.isStandard = true)
    {index : Int} {name : List Char} (h : family.render index = some name) :
    classify name = some ⟨family, index, true⟩ := by
  have hindex : index = -1 ∨ index = 0 ∨ index = 1 := by
    by_cases hfar : 2 ≤ index.natAbs
    · rw [render_eq_none_of_standard hfamily hfar] at h
      cases h
    · omega
  cases family with
  | standardSingle | standardDouble => rcases hindex with rfl | rfl | rfl <;> cases h <;> rfl
  | serial | extra | numberExtra | extraNumber => cases hfamily

/-- **A name that a family writes is read as its index.** -/
theorem classify_of_render {family : Family} {index : Int} {name : List Char}
    (h : family.render index = some name) (hholds : family.Holds index) :
    ∃ c, classify name = some c ∧ c.index = index := by
  cases family with
  | serial =>
    cases h
    obtain ⟨hnumeral, hvalue⟩ := numeral_toString index
    have hin : holdsIndex index = true := hholds
    refine ⟨⟨.serial, index, true⟩, ?_, rfl⟩
    rw [classify, if_pos hnumeral, hvalue, if_pos hin]
  | standardSingle => exact ⟨_, classify_of_render_standard rfl h, rfl⟩
  | standardDouble => exact ⟨_, classify_of_render_standard rfl h, rfl⟩
  | extra =>
    unfold Family.render at h
    dsimp only at h
    split at h
    · next hsteps =>
      have hx : 'x' ∈ List.replicate (index.natAbs - 1) 'x' :=
        List.mem_replicate.2 ⟨by omega, rfl⟩
      cases h
      exact index_of_append_side hx (by omega) fun sign => extraTier?_x sign hsteps
    · cases h
  | numberExtra =>
    unfold Family.render at h
    dsimp only at h
    split at h
    · next hsteps =>
      have hbound : index.natAbs < Nat.pow 2 63 := hholds
      have hx : 'x' ∈ Nat.toDigits 10 (index.natAbs - 1) ++ ['x'] := by simp
      cases h
      rw [List.append_cons]
      exact index_of_append_side hx (by omega) fun _ => extraTier?_number_x (by omega) (by omega)
    · cases h
  | extraNumber =>
    unfold Family.render at h
    dsimp only at h
    split at h
    · next hsteps =>
      have hbound : index.natAbs < Nat.pow 2 63 := hholds
      cases h
      exact index_of_append_side List.mem_cons_self (by omega)
        fun _ => extraTier?_x_number (by omega) (by omega)
    · cases h

/-! ## §5. The ends of a range -/

section Ends

variable {a b : Checkpoint}

theorem natAbs_le_one_of_standard (h : a.Proper) (hfamily : a.family.isStandard = true) :
    a.index.natAbs ≤ 1 := by
  obtain ⟨family, index, strict⟩ := a
  cases family with
  | standardSingle | standardDouble => exact h.2
  | serial | extra | numberExtra | extraNumber => cases hfamily

theorem two_le_natAbs_of_extra (h : a.Proper) (hfamily : a.family.isExtra = true) :
    2 ≤ a.index.natAbs := by
  obtain ⟨family, index, strict⟩ := a
  cases family with
  | extra => exact h.1
  | numberExtra | extraNumber => exact h.2.1
  | serial | standardSingle | standardDouble => cases hfamily

/-- A checkpoint that is not strict is a single `x` with its side. -/
theorem bridge_of_not_strict (h : a.Proper) (hstrict : a.strict = false) :
    a.family = .extra ∧ a.index.natAbs = 2 := by
  obtain ⟨family, index, strict⟩ := a
  obtain rfl : strict = false := hstrict
  cases family with
  | extra =>
    have hnear : ¬ index.natAbs ≠ 2 := fun hfar => Bool.false_ne_true (h.2.2 hfar)
    exact ⟨rfl, by dsimp only; omega⟩
  | serial | standardSingle | standardDouble | numberExtra | extraNumber =>
    exact absurd h.1 Bool.false_ne_true

/-- Two families that share a range are one of the standard tier and one of the extra tiers, or
    two of the extra tiers that a single `x` joins. -/
theorem families_of_continuous (hab : continuous a b = true) (hne : a.family ≠ b.family) :
    (a.family.isStandard = true ∧ b.family.isExtra = true) ∨
      (a.family.isExtra = true ∧ b.family.isStandard = true) ∨
      (a.family.isExtra = true ∧ b.family.isExtra = true ∧
        (a.strict = false ∨ b.strict = false)) := by
  obtain ⟨family, index, strict⟩ := a
  obtain ⟨family', index', strict'⟩ := b
  cases family <;> cases family' <;>
    simp_all [continuous, Family.isStandard, Family.isExtra]

/-- **At the end of a range only its own family and the single `x` have a name.** -/
theorem render_eq_none_of_continuous (ha : a.Proper) (hb : b.Proper)
    (hab : continuous a b = true) (hne : a.family ≠ b.family)
    (hbridge : a.family = .extra → a.strict = true) : a.family.render b.index = none := by
  rcases families_of_continuous hab hne with ⟨hstandard, hextra⟩ | ⟨hextra, hstandard⟩ |
    ⟨hextra, -, hloose⟩
  -- a standard tier and an extra one meet between their names
  · exact render_eq_none_of_standard hstandard (two_le_natAbs_of_extra hb hextra)
  · exact render_eq_none_of_extra hextra (natAbs_le_one_of_standard hb hstandard)
  · -- one of them is a single `x`, and it is not the first
    have hfirst : a.strict ≠ false := by
      intro hstrict
      rw [hbridge (bridge_of_not_strict ha hstrict).1] at hstrict
      cases hstrict
    obtain ⟨hfamily, hindex⟩ := bridge_of_not_strict hb (hloose.resolve_left hfirst)
    refine render_eq_none_of_counted hextra ?_ (Nat.le_of_eq hindex)
    rw [← hfamily]
    exact hne

end Ends

end DesignTokens.Range
