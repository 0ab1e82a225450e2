/-
  DesignTokens.Proofs.Similarity.Cosine — the score of two names is a cosine.

  A name is a vector that counts its grams.  The vectors are sparse: they are given by the lists
  of grams, and every gram of one name contributes as often as it stands in that list.  Counted
  gram by gram, over any set that has the grams of both names, this is an inner product, and the
  inequality of Cauchy and Schwarz bounds it by the lengths.  A name that is not empty has a
  gram of width one for each of its code points, so its length is positive; and two names have a
  common gram just if they have a common code point.

  Main facts:
    * `mem_windows_iff`, `mem_grams_iff` — which runs are grams of a name.
    * `dot_eq_sum` — the dot product, counted gram by gram.
    * `dot_mul_dot_le` — the inequality.
    * `dot_eq_zero_iff`, `normSquared_pos` — where the integers behind a score are zero.
    * `isCosine_dot`, `score_is_cosine` — what follows for the integers behind a score, and for
      the quotient.
-/
import DesignTokens.Similarity
import Mathlib.Algebra.Order.BigOperators.Ring.Finset
import Mathlib.Analysis.Real.Sqrt

namespace DesignTokens.Similarity

/-! ## §1. Grams -/

/-- **The windows of a list are its runs of one width.** -/
theorem mem_windows_iff {α : Type} {width : Nat} (hwidth : 0 < width) {run s : List α} :
    run ∈ windows width s ↔ run.length = width ∧ run <:+: s := by
  induction s with
  | nil =>
    rw [windows, List.infix_nil]
    refine iff_of_false List.not_mem_nil ?_
    rintro ⟨hlength, rfl⟩
    exact absurd hlength hwidth.ne
  | cons a s ih =>
    rw [windows, List.infix_cons_iff]
    by_cases hfull : ((a :: s).take width).length = width
    · rw [if_pos hfull, List.mem_cons, ih]
      -- the run at the front is the one prefix of this width
      constructor
      · rintro (rfl | ⟨hlength, hinfix⟩)
        · exact ⟨hfull, Or.inl (List.take_prefix width (a :: s))⟩
        · exact ⟨hlength, Or.inr hinfix⟩
      · rintro ⟨hlength, hprefix | hinfix⟩
        · rw [← hlength]
          exact Or.inl (List.prefix_iff_eq_take.1 hprefix)
        · exact Or.inr ⟨hlength, hinfix⟩
    · rw [if_neg hfull]
      rw [List.length_take] at hfull
      refine iff_of_false List.not_mem_nil ?_
      rintro ⟨hlength, hprefix | hinfix⟩
      · have hle := hprefix.length_le
        omega
      · have hle := hinfix.length_le
        rw [List.length_cons] at hfull
        omega

/-- The grams of a name are its runs of one, two and three code points. -/
theorem mem_grams_iff {g s : List Char} :
    g ∈ grams s ↔ (1 ≤ g.length ∧ g.length ≤ 3) ∧ g <:+: s := by
  rw [grams, List.mem_append, List.mem_append, mem_windows_iff (by decide),
    mem_windows_iff (by decide), mem_windows_iff (by decide), ← or_and_right, ← or_and_right]
  refine and_congr_left fun _ => ?_
  omega

/-- Every code point is a gram. -/
theorem singleton_mem_grams_iff {c : Char} {s : List Char} : [c] ∈ grams s ↔ c ∈ s := by
  rw [mem_grams_iff, List.singleton_infix_iff, List.length_singleton]
  exact and_iff_right (by decide)

/-- **Two names have a common gram just if they have a common code point.** -/
theorem exists_common_gram_iff {a b : List Char} :
    (∃ g, g ∈ grams a ∧ g ∈ grams b) ↔ ∃ c, c ∈ a ∧ c ∈ b := by
  constructor
  · rintro ⟨g, ha, hb⟩
    obtain ⟨⟨hlength, -⟩, hinfix⟩ := mem_grams_iff.1 ha
    cases g with
    | nil => exact absurd hlength (by decide)
    | cons c rest =>
      exact ⟨c, hinfix.subset List.mem_cons_self,
        (mem_grams_iff.1 hb).2.subset List.mem_cons_self⟩
  · rintro ⟨c, ha, hb⟩
    exact ⟨[c], singleton_mem_grams_iff.2 ha, singleton_mem_grams_iff.2 hb⟩

/-! ## §2. Counts -/

/-- How often a name has a gram. -/
def gramCount (s g : List Char) : Nat := (grams s).count g

/-- **The dot product, counted gram by gram**, over any grams among which are those of the first
    name. -/
theorem dot_eq_sum {a : List Char} {gs : Finset (List Char)} (h : (grams a).toFinset ⊆ gs)
    (b : List Char) : dot a b = ∑ g ∈ gs, gramCount a g * gramCount b g := by
  have hlist : dot a b = ((grams a).map (gramCount b)).sum := by
    rw [List.sum, List.foldr_map]
    rfl
  rw [hlist, Finset.sum_list_map_count, ← Finset.sum_subset h]
  · refine Finset.sum_congr rfl fun g _ => ?_
    -- the two counts compare runs by different, but lawful, tests
    rw [smul_eq_mul, gramCount, gramCount,
      lawful_beq_subsingleton instBEqOfDecidableEq List.instBEq]
  · intro g _ hg
    rw [List.mem_toFinset] at hg
    rw [gramCount, List.count_eq_zero_of_not_mem hg, zero_mul]

/-- The grams of two names. -/
def gramsOfBoth (a b : List Char) : Finset (List Char) := (grams a).toFinset ∪ (grams b).toFinset

theorem dot_comm (a b : List Char) : dot a b = dot b a := by
  have ha : (grams a).toFinset ⊆ gramsOfBoth a b := Finset.subset_union_left
  have hb : (grams b).toFinset ⊆ gramsOfBoth a b := Finset.subset_union_right
  rw [dot_eq_sum ha, dot_eq_sum hb]
  exact Finset.sum_congr rfl fun g _ => Nat.mul_comm _ _

theorem normSquared_eq_sum {a : List Char} {gs : Finset (List Char)}
    (h : (grams a).toFinset ⊆ gs) : normSquared a = ∑ g ∈ gs, gramCount a g ^ 2 := by
  rw [← dot_self, dot_eq_sum h]
  exact Finset.sum_congr rfl fun g _ => (sq _).symm

/-- **The inequality of Cauchy and Schwarz** for the counts of two names. -/
theorem dot_mul_dot_le (a b : List Char) :
    dot a b * dot a b ≤ normSquared a * normSquared b := by
  have ha : (grams a).toFinset ⊆ gramsOfBoth a b := Finset.subset_union_left
  have hb : (grams b).toFinset ⊆ gramsOfBoth a b := Finset.subset_union_right
  rw [dot_eq_sum ha, normSquared_eq_sum ha, normSquared_eq_sum hb, ← sq]
  exact Finset.sum_mul_sq_le_sq_mul_sq _ _ _

/-- The dot product is zero just where there is no common code point. -/
theorem dot_eq_zero_iff {a b : List Char} : dot a b = 0 ↔ ¬∃ c, c ∈ a ∧ c ∈ b := by
  rw [← exists_common_gram_iff, dot_eq_sum (Finset.Subset.refl _) b, Finset.sum_eq_zero_iff,
    not_exists]
  refine forall_congr' fun g => ?_
  rw [List.mem_toFinset, Nat.mul_eq_zero, gramCount, gramCount, List.count_eq_zero,
    List.count_eq_zero, ← not_and_or]
  exact ⟨fun h hboth => h hboth.1 hboth, fun h _ => h⟩

/-- The vector of a name that is not empty has a positive length. -/
theorem normSquared_pos {a : List Char} (h : a ≠ []) : 0 < normSquared a := by
  obtain ⟨c, hc⟩ := List.exists_mem_of_ne_nil a h
  refine Nat.pos_of_ne_zero fun hzero => ?_
  rw [← dot_self, dot_eq_zero_iff] at hzero
  exact hzero ⟨c, hc, hc⟩

/-! ## §3. The quotient -/

/-- The quotient does not divide by zero. -/
theorem sqrt_mul_sqrt_pos {a b : List Char} (ha : a ≠ []) (hb : b ≠ []) :
    0 < √(normSquared a : ℝ) * √(normSquared b : ℝ) :=
  mul_pos (Real.sqrt_pos.2 (Nat.cast_pos.2 (normSquared_pos ha)))
    (Real.sqrt_pos.2 (Nat.cast_pos.2 (normSquared_pos hb)))

/-- **The quotient lies between `0` and `1`.** -/
theorem dot_div_mem_Icc (a b : List Char) :
    (dot a b : ℝ) / (√(normSquared a) * √(normSquared b)) ∈ Set.Icc (0 : ℝ) 1 := by
  have hsqrt : (0 : ℝ) ≤ √(normSquared a) * √(normSquared b) :=
    mul_nonneg (Real.sqrt_nonneg _) (Real.sqrt_nonneg _)
  refine ⟨div_nonneg (Nat.cast_nonneg _) hsqrt, div_le_one_of_le₀ ?_ hsqrt⟩
  rw [← Real.sqrt_mul (Nat.cast_nonneg _)]
  refine Real.le_sqrt_of_sq_le ?_
  rw [sq]
  exact_mod_cast dot_mul_dot_le a b

/-- The integers behind a cosine: `d` is the inner product of the counts of two names' grams, `x`
    and `y` are the squares of the lengths of the two vectors. -/
structure IsCosine (a b : List Char) (d x y : Nat) : Prop where
  product : d = ∑ g ∈ gramsOfBoth a b, gramCount a g * gramCount b g
  left : x = ∑ g ∈ gramsOfBoth a b, gramCount a g ^ 2
  right : y = ∑ g ∈ gramsOfBoth a b, gramCount b g ^ 2
  left_pos : 0 < x
  right_pos : 0 < y
  divisor_pos : 0 < √(x : ℝ) * √(y : ℝ)
  mul_self_le : d * d ≤ x * y
  quotient_mem : (d : ℝ) / (√(x : ℝ) * √(y : ℝ)) ∈ Set.Icc (0 : ℝ) 1
  eq_zero_iff : d = 0 ↔ ¬∃ c, c ∈ a ∧ c ∈ b

theorem isCosine_dot {a b : List Char} (ha : a ≠ []) (hb : b ≠ []) :
    IsCosine a b (dot a b) (normSquared a) (normSquared b) where
  product := dot_eq_sum Finset.subset_union_left b
  left := normSquared_eq_sum Finset.subset_union_left
  right := normSquared_eq_sum Finset.subset_union_right
  left_pos := normSquared_pos ha
  right_pos := normSquared_pos hb
  divisor_pos := sqrt_mul_sqrt_pos ha hb
  mul_self_le := dot_mul_dot_le a b
  quotient_mem := dot_div_mem_Icc a b
  eq_zero_iff := dot_eq_zero_iff

/-! ## §4. The score -/

theorem score_of_ne_empty {a b : String} (ha : a ≠ "") (hb : b ≠ "") :
    score a b = Float.ofNat (dot a.toList b.toList)
      / (Float.sqrt (Float.ofNat (normSquared a.toList))
        * Float.sqrt (Float.ofNat (normSquared b.toList))) := by
  have hempty : ¬((a.isEmpty || b.isEmpty) = true) := by
    rw [Bool.or_eq_true, String.isEmpty_iff, String.isEmpty_iff, not_or]
    exact ⟨ha, hb⟩
  rw [score, if_neg hempty]

/-- **The score of two names that are not empty is a cosine**, the quotient of the dot product by
    the lengths of the vectors, of which neither is zero.  The quotient, before it is rounded, lies
    between `0` and `1`, and is zero just where the names have no common code point.  The names may
    be exchanged, and a name's dot product with itself is the square of its length. -/
theorem score_is_cosine (a b : String) (ha : a ≠ "") (hb : b ≠ "") :
    score a b = Float.ofNat (dot a.toList b.toList)
        / (Float.sqrt (Float.ofNat (normSquared a.toList))
          * Float.sqrt (Float.ofNat (normSquared b.toList)))
      ∧ IsCosine a.toList b.toList (dot a.toList b.toList) (normSquared a.toList)
          (normSquared b.toList)
      ∧ dot b.toList a.toList = dot a.toList b.toList
      ∧ (a = b → dot a.toList b.toList = normSquared a.toList
          ∧ dot a.toList b.toList = normSquared b.toList) := by
  have ha' : a.toList ≠ [] := fun h => ha (String.toList_eq_nil_iff.1 h)
  have hb' : b.toList ≠ [] := fun h => hb (String.toList_eq_nil_iff.1 h)
  refine ⟨score_of_ne_empty ha hb, isCosine_dot ha' hb', dot_comm _ _, ?_⟩
  rintro rfl
  exact ⟨dot_self _, dot_self _⟩

/-- A name of one code point, and a name in which it stands twice. -/
theorem score_is_cosine_accent :
    ("é" ≠ "" ∧ "été" ≠ "")
      ∧ dot "é".toList "été".toList = 2
      ∧ normSquared "é".toList = 1 ∧ normSquared "été".toList = 8
      ∧ dot "été".toList "é".toList = dot "é".toList "été".toList
      ∧ IsCosine "é".toList "été".toList 2 1 8 := by
  have ha : "é" ≠ "" := by decide
  have hb : "été" ≠ "" := by decide
  have hdot : dot "é".toList "été".toList = 2 := by decide +kernel
  have hleft : normSquared "é".toList = 1 := by decide +kernel
  have hright : normSquared "été".toList = 8 := by decide +kernel
  obtain ⟨-, hcosine, hcomm, -⟩ := score_is_cosine "é" "été" ha hb
  rw [hdot, hleft, hright] at hcosine
  exact ⟨⟨ha, hb⟩, hdot, hleft, hright, hcomm, hcosine⟩

end DesignTokens.Similarity
