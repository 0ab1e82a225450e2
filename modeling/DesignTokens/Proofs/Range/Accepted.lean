/-
  DesignTokens.Proofs.Range.Accepted — which ranges expand.

  A range is refused for one of three reasons: one of its ends is no checkpoint, the ends lie too
  far apart, or the scale has a gap between them.  The last is found in two places, first in the
  families of the ends and then at the first index for which no family has a name.

  Names with an `x` lie at least two steps from the middle, and the single `x`, which is always
  asked for sizes, has a name everywhere out there.  So the only gap that the families do not
  show is the middle itself, between two names with an `x` on different sides.

  Main facts:
    * `strict_eq_false_iff_of_classify` — the names that are not strict.
    * `isSome_spell_iff_of_sizes` — which indices have a name in a range of sizes.
    * `walk_spelled_iff` — between which checkpoints every index has a name.
    * `expandPair_outcome` — which ranges expand, and how the others fail.
-/
import DesignTokens.Proofs.Range.Pair

namespace DesignTokens.Range

/-! ## §1. The names that are not strict -/

theorem eq_append_of_splitLast? {s body : List Char} {side : Char}
    (h : splitLast? s = some (body, side)) : s = body ++ [side] := by
  unfold splitLast? at h
  obtain ⟨last, hlast, hpair⟩ := Option.map_eq_some_iff.1 h
  obtain ⟨front, rfl⟩ := List.getLast?_eq_some_iff.1 hlast
  cases hpair
  rw [List.dropLast_concat]

theorem strict_of_standard? {name : List Char} {c : Checkpoint} (h : standard? name = some c) :
    c.strict = true := by
  unfold standard? at h
  split at h <;> cases h <;> rfl

/-- Of the bodies in front of a side letter only the single `x` is not strict. -/
theorem eq_x_of_extraTier? {sign : Int} {body : List Char} {c : Checkpoint}
    (h : extraTier? sign body = some c) (hstrict : c.strict = false) : body = ['x'] := by
  unfold extraTier? at h
  split at h
  · next hbody =>
    cases h
    rw [Bool.and_eq_true, List.all_eq_true] at hbody
    have hlength : body.length = 1 := by simpa using hstrict
    obtain ⟨x, rfl⟩ := List.length_eq_one_iff.1 hlength
    rw [eq_of_beq (hbody.2 x List.mem_cons_self)]
  · split at h
    · obtain ⟨index, -, rfl⟩ := Option.map_eq_some_iff.1 h
      cases hstrict
    · split at h
      · obtain ⟨index, -, rfl⟩ := Option.map_eq_some_iff.1 h
        cases hstrict
      · cases h

/-- **The names that are not strict** are the single `x` on either side. -/
theorem strict_eq_false_iff_of_classify {name : String} {c : Checkpoint}
    (h : classify name.toList = some c) : c.strict = false ↔ name ∈ ["xs", "xl"] := by
  constructor
  · intro hstrict
    have hnumeral : ¬ isNumeral name.toList = true := by
      intro hnumeral
      rw [index_of_classify_serial hnumeral h] at hstrict
      cases hstrict
    rw [classify, if_neg hnumeral] at h
    split at h
    · next checkpoint hstandard =>
      cases h
      rw [strict_of_standard? hstandard] at hstrict
      cases hstrict
    · split at h
      · next body side hsplit =>
        obtain ⟨sign, hsign, htier⟩ := Option.bind_eq_some_iff.1 h
        have hname : name = String.ofList ['x', side] := by
          refine String.ofList_toList.symm.trans (congrArg String.ofList ?_)
          rw [eq_append_of_splitLast? hsplit, eq_x_of_extraTier? htier hstrict]
          rfl
        have hside : side = 's' ∨ side = 'l' := by
          unfold sideSign? at hsign
          split at hsign
          · exact Or.inl rfl
          · exact Or.inr rfl
          · cases hsign
        rw [hname]
        rcases hside with rfl | rfl
        · exact List.mem_cons_self
        · exact List.mem_cons_of_mem _ List.mem_cons_self
      · cases h
  · intro hname
    have hloose : ∀ name ∈ ["xs", "xl"], (classify name.toList).map (·.strict) = some false := by
      decide +kernel
    have hstrict := hloose name hname
    rw [h] at hstrict
    exact Option.some.inj hstrict

/-! ## §2. The indices that have a name -/

theorem isSome_spell_iff {families : List Family} {index : Int} :
    (spell families index).isSome = true ↔
      ∃ family ∈ families, (family.render index).isSome = true := by
  unfold spell
  rw [Option.isSome_map, List.findSome?_isSome_iff]

/-- Every family but that of the integers spells sizes, without an `x` or with it. -/
theorem Family.isStandard_or_isExtra {family : Family} (h : family ≠ .serial) :
    family.isStandard = true ∨ family.isExtra = true := by
  cases family with
  | serial => exact absurd rfl h
  | standardSingle | standardDouble => exact Or.inl rfl
  | extra | numberExtra | extraNumber => exact Or.inr rfl

theorem Family.not_isStandard_of_isExtra {family : Family} (h : family.isExtra = true) :
    ¬ family.isStandard = true := by
  cases family with
  | extra | numberExtra | extraNumber => exact Bool.false_ne_true
  | serial | standardSingle | standardDouble => cases h

theorem isSome_render_of_standard {family : Family} (hfamily : family.isStandard = true)
    {index : Int} (h : index.natAbs ≤ 1) : (family.render index).isSome = true := by
  have hindex : index = -1 ∨ index = 0 ∨ index = 1 := by omega
  cases family with
  | standardSingle | standardDouble => rcases hindex with rfl | rfl | rfl <;> rfl
  | serial | extra | numberExtra | extraNumber => cases hfamily

/-- A run of `x` has a name for every tier beyond the standard ones. -/
theorem isSome_render_extra {index : Int} (h : 2 ≤ index.natAbs) :
    (Family.extra.render index).isSome = true := by
  unfold Family.render
  dsimp only
  rw [if_pos (by omega)]
  rfl

section Sizes

variable {a b : Checkpoint}

/-- **The indices that have a name in a range of sizes** lie beyond the standard tiers, unless
    one end is of a standard tier; then all have. -/
theorem isSome_spell_iff_of_sizes (hab : continuous a b = true) (ha : a.family ≠ .serial)
    {index : Int} : (spell (spellings a b) index).isSome = true ↔
      2 ≤ index.natAbs ∨ a.family.isStandard = true ∨ b.family.isStandard = true := by
  have hb : b.family ≠ .serial := ne_serial_of_continuous ha hab
  -- the families that are asked, in whatever order
  have hasked : (spell (spellings a b) index).isSome = true ↔
      (a.family.render index).isSome = true ∨ (b.family.render index).isSome = true ∨
        (Family.extra.render index).isSome = true := by
    rw [spell_spellings ha]
    split
    · rw [isSome_spell_iff]
      simp [or_left_comm]
    · rw [isSome_spell_iff]
      simp
  rw [hasked]
  constructor
  · intro hsome
    by_contra hgap
    rw [not_or, not_or, Nat.not_le] at hgap
    obtain ⟨hnear, hastandard, hbstandard⟩ := hgap
    have hnone : ∀ family : Family, family.isExtra = true →
        ¬ (family.render index).isSome = true := by
      intro family hextra
      rw [render_eq_none_of_extra hextra (by omega)]
      exact Bool.false_ne_true
    rcases hsome with h | h | h
    · exact hnone _ ((Family.isStandard_or_isExtra ha).resolve_left hastandard) h
    · exact hnone _ ((Family.isStandard_or_isExtra hb).resolve_left hbstandard) h
    · exact hnone _ rfl h
  · intro hplace
    by_cases hfar : 2 ≤ index.natAbs
    · exact Or.inr (Or.inr (isSome_render_extra hfar))
    · rcases hplace.resolve_left hfar with hstandard | hstandard
      · exact Or.inl (isSome_render_of_standard hstandard (by omega))
      · exact Or.inr (Or.inl (isSome_render_of_standard hstandard (by omega)))

end Sizes

/-! ## §3. Gaps -/

/-- Two indices lie on one side of the middle. -/
def OneSide (i j : Int) : Prop := (i < 0 ∧ j < 0) ∨ (0 < i ∧ 0 < j)

instance (i j : Int) : Decidable (OneSide i j) :=
  inferInstanceAs (Decidable (_ ∨ _))

/-- Between two indices that are not near the middle none is, if both lie on one side of it. -/
theorem forall_far_walk_iff {i j : Int} (hi : 2 ≤ i.natAbs) (hj : 2 ≤ j.natAbs) :
    (∀ index ∈ walk i j, 2 ≤ index.natAbs) ↔ OneSide i j := by
  rw [OneSide]
  constructor
  · intro hfar
    -- were they on different sides, the middle would be on the way
    by_contra hsides
    have hmiddle : (0 : Int) ∈ walk i j := mem_walk_iff.2 (by omega)
    exact absurd (hfar 0 hmiddle) (by decide)
  · intro hside index hindex
    have hbetween := mem_walk_iff.1 hindex
    omega

section Gaps

variable {a b : Checkpoint}

/-- **Every index between two checkpoints has a name**, unless the middle of the scale lies
    between two names with an `x`. -/
theorem walk_spelled_iff (ha : a.Proper) (hb : b.Proper) (hab : continuous a b = true) :
    (∃ names, (walk a.index b.index).mapM (spell (spellings a b)) = some names) ↔
      (a.family.isExtra = true → b.family.isExtra = true → OneSide a.index b.index) := by
  rw [exists_mapM_eq_some_iff]
  by_cases hserial : a.family = .serial
  · -- integers have a name everywhere
    refine iff_of_true (fun index _ => ?_) (fun hextra => ?_)
    · rw [spell_spellings_serial hserial, serial_of_continuous hserial hab, ite_self, spell_serial]
      rfl
    · rw [hserial] at hextra
      cases hextra
  · simp only [isSome_spell_iff_of_sizes hab hserial]
    by_cases hstandard : a.family.isStandard = true ∨ b.family.isStandard = true
    · refine iff_of_true (fun _ _ => Or.inr hstandard) fun hextra hextra' => ?_
      rcases hstandard with h | h
      · exact absurd h (Family.not_isStandard_of_isExtra hextra)
      · exact absurd h (Family.not_isStandard_of_isExtra hextra')
    · -- both are spelled with an `x`, and near the middle there is nothing of the kind
      obtain ⟨hfirst, hlast⟩ := not_or.1 hstandard
      have hextra : a.family.isExtra = true :=
        (Family.isStandard_or_isExtra hserial).resolve_left hfirst
      have hextra' : b.family.isExtra = true :=
        (Family.isStandard_or_isExtra (ne_serial_of_continuous hserial hab)).resolve_left hlast
      simp only [or_iff_left hstandard]
      rw [forall_far_walk_iff (two_le_natAbs_of_extra ha hextra)
        (two_le_natAbs_of_extra hb hextra')]
      exact ⟨fun h _ _ => h, fun h => h hextra hextra'⟩

end Gaps

/-! ## §4. Which ranges expand -/

/-- The ends of a range lie on one scale that has no gap between them: both are integers, or both
    are of one standard tier, or one is of a standard tier and the other of an extra one, or both
    are of extra tiers on one side, spelled by one family or with a single `x` among them. -/
def OneScale (first last : String) (a b : Checkpoint) : Prop :=
  (a.family = .serial ∧ b.family = .serial) ∨
  (a.family = .standardSingle ∧ b.family = .standardSingle) ∨
  (a.family = .standardDouble ∧ b.family = .standardDouble) ∨
  (a.family.isStandard = true ∧ b.family.isExtra = true) ∨
  (a.family.isExtra = true ∧ b.family.isStandard = true) ∨
  (a.family.isExtra = true ∧ b.family.isExtra = true ∧ OneSide a.index b.index ∧
    (a.family = b.family ∨ first ∈ ["xs", "xl"] ∨ last ∈ ["xs", "xl"]))

instance (first last : String) (a b : Checkpoint) : Decidable (OneScale first last a b) :=
  inferInstanceAs (Decidable (_ ∨ _ ∨ _ ∨ _ ∨ _ ∨ _))

section Outcome

variable {first last : String} {a b : Checkpoint}

theorem oneScale_iff (ha : classify first.toList = some a) (hb : classify last.toList = some b) :
    OneScale first last a b ↔ continuous a b = true ∧
      (a.family.isExtra = true → b.family.isExtra = true → OneSide a.index b.index) := by
  rw [OneScale, ← strict_eq_false_iff_of_classify ha, ← strict_eq_false_iff_of_classify hb]
  obtain ⟨family, index, strict⟩ := a
  obtain ⟨family', index', strict'⟩ := b
  cases family <;> cases family' <;>
    simp [continuous, Family.isStandard, Family.isExtra, and_comm]

/-- **Which pairs of checkpoints expand.** -/
theorem exists_expandPair_eq_ok_iff (ha : classify first.toList = some a)
    (hb : classify last.toList = some b) : (∃ names, expandPair first last = .ok names) ↔
      (b.index - a.index).natAbs < maxExpansion ∧ OneScale first last a b := by
  rw [oneScale_iff ha hb]
  constructor
  · rintro ⟨names, h⟩
    obtain ⟨a', b', ha', hb', hab, hnear, hnames⟩ := expandPair_eq_ok_iff.1 h
    obtain rfl : a = a' := Option.some.inj (ha.symm.trans ha')
    obtain rfl : b = b' := Option.some.inj (hb.symm.trans hb')
    exact ⟨hnear, hab, (walk_spelled_iff (proper_of_classify ha) (proper_of_classify hb) hab).1
      ⟨names, hnames⟩⟩
  · rintro ⟨hnear, hab, hsides⟩
    obtain ⟨names, hnames⟩ :=
      (walk_spelled_iff (proper_of_classify ha) (proper_of_classify hb) hab).2 hsides
    exact ⟨names, expandPair_eq_ok_iff.2 ⟨a, b, ha, hb, hab, hnear, hnames⟩⟩

/-- **How the other pairs of checkpoints fail.** -/
theorem expandPair_eq_error_iff (ha : classify first.toList = some a)
    (hb : classify last.toList = some b) {error : RangeError} :
    expandPair first last = .error error ↔
      ¬ ((b.index - a.index).natAbs < maxExpansion ∧ OneScale first last a b) ∧
      error = if continuous a b = true ∧ maxExpansion ≤ (b.index - a.index).natAbs then
          .tooLarge (first ++ ".." ++ last)
        else .discontinuity first last := by
  rw [← exists_expandPair_eq_ok_iff ha hb, expandPair_of_classify ha hb]
  cases continuous a b with
  | false => simp [eq_comm]
  | true =>
    by_cases hfar : maxExpansion ≤ (b.index - a.index).natAbs
    · simp [hfar, eq_comm]
    · cases (walk a.index b.index).mapM (spell (spellings a b)) <;> simp [hfar, eq_comm]

end Outcome

/-- **Which ranges expand**, and how the others fail.  A range expands when its ends are
    checkpoints of one scale without a gap, less than the limit apart.  Otherwise the failure
    names the first end that is no checkpoint, or it is that there are too many values, where the
    families of the ends go together and the ends are too far apart, or else that the range has a
    gap, and it names the pair. -/
theorem expandPair_outcome (first last : String) :
    ((∃ names, expandPair first last = .ok names) ↔
      ∃ a b, classify first.toList = some a ∧ classify last.toList = some b ∧
        (b.index - a.index).natAbs < maxExpansion ∧ OneScale first last a b) ∧
    ∀ error, expandPair first last = .error error ↔
      (classify first.toList = none ∧ error = .unclassified first last first) ∨
      ((classify first.toList).isSome = true ∧ classify last.toList = none ∧
        error = .unclassified first last last) ∨
      ∃ a b, classify first.toList = some a ∧ classify last.toList = some b ∧
        ¬ ((b.index - a.index).natAbs < maxExpansion ∧ OneScale first last a b) ∧
        error = if continuous a b = true ∧ maxExpansion ≤ (b.index - a.index).natAbs then
            .tooLarge (first ++ ".." ++ last)
          else .discontinuity first last := by
  cases ha : classify first.toList with
  | none =>
    rw [expandPair_of_not_first ha]
    refine ⟨iff_of_false ?_ ?_, fun error => ⟨fun h => ?_, ?_⟩⟩
    · rintro ⟨names, h⟩
      cases h
    · rintro ⟨a, b, h, -⟩
      cases h
    · exact Or.inl ⟨rfl, (Except.error.inj h).symm⟩
    · rintro (⟨-, rfl⟩ | ⟨h, -⟩ | ⟨a, b, h, -⟩)
      · rfl
      · cases h
      · cases h
  | some a =>
    cases hb : classify last.toList with
    | none =>
      rw [expandPair_of_not_last ha hb]
      refine ⟨iff_of_false ?_ ?_, fun error => ⟨fun h => ?_, ?_⟩⟩
      · rintro ⟨names, h⟩
        cases h
      · rintro ⟨a, b, -, h, -⟩
        cases h
      · exact Or.inr (Or.inl ⟨rfl, rfl, (Except.error.inj h).symm⟩)
      · rintro (⟨h, -⟩ | ⟨-, -, rfl⟩ | ⟨a, b, -, h, -⟩)
        · cases h
        · rfl
        · cases h
    | some b =>
      refine ⟨?_, fun error => ?_⟩
      · rw [exists_expandPair_eq_ok_iff ha hb]
        simp
      · rw [expandPair_eq_error_iff ha hb]
        simp

/-- No family spells both `xxl` and `3xl`, though nothing lies between them; and `xs` and `xl` have
    the middle between them. -/
example : ¬ OneScale "xxl" "3xl" ⟨.extra, 3, true⟩ ⟨.numberExtra, 4, true⟩ ∧
    ¬ OneScale "xs" "xl" ⟨.extra, -2, false⟩ ⟨.extra, 2, false⟩ := by
  decide

end DesignTokens.Range
