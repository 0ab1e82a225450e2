/-
  DesignTokens.Proofs.Patch.Combinations — a patch runs for the product of its matrix.

  The combinations of a matrix are put together key by key, and the limit is tested on what has
  been put together so far.  A key that takes part has at least one value, so what has been put
  together never gets smaller: the test fails on the way exactly if it fails for the full
  product.  The invariant is that the combinations so far, continued by every choice for the
  keys that are left, are the combinations of the matrix.

  The keys are sorted before.  Keys of a matrix are distinct, so they have one ascending order,
  and nothing is left of the order in which they were written.

  Main facts:
    * `participants_of_expands` — the keys that take part, where all texts can be written out.
    * `extendAll_eq` — the limit is tested for the full product, and what it lets through is
      the full product.
    * `ordered_eq_of_perm` — the written order of the keys is forgotten.
    * `combinations_eq_product` — what a patch runs for.
-/
import DesignTokens.Patch.Apply
import DesignTokens.Proofs.Outcome
import Mathlib.Algebra.BigOperators.Group.List.Basic
import Mathlib.Algebra.Order.BigOperators.GroupWithZero.List
import Mathlib.Algebra.Order.Ring.Nat
import Mathlib.Data.List.Forall2
import Mathlib.Data.List.Nodup
import Mathlib.Data.String.Basic

namespace DesignTokens

namespace Matrix

/-! ## §1. The full product -/

/-- Every choice of a value for every key, the first key varying slowest. -/
def cartesian : Entries (List Tree) → List Combination
  | [] => [[]]
  | (key, values) :: rest =>
    values.flatMap fun value => (cartesian rest).map ((key, value) :: ·)

/-- The product of the value counts. -/
def size (keys : Entries (List Tree)) : Nat := (keys.map fun entry => entry.2.length).prod

/-- There are as many choices as the product of the value counts. -/
theorem length_cartesian (keys : Entries (List Tree)) : (cartesian keys).length = size keys := by
  induction keys with
  | nil => rfl
  | cons entry rest ih =>
    obtain ⟨key, values⟩ := entry
    show (values.flatMap fun value => (cartesian rest).map ((key, value) :: ·)).length
      = values.length * size rest
    simp only [List.length_flatMap, List.length_map]
    rw [ih, List.map_const', List.sum_replicate_nat]

/-- A choice gives each key, in order, one of its values. -/
theorem mem_cartesian_iff {keys : Entries (List Tree)} {c : Combination} :
    c ∈ cartesian keys ↔
      List.Forall₂ (fun choice entry => choice.1 = entry.1 ∧ choice.2 ∈ entry.2) c keys := by
  induction keys generalizing c with
  | nil => simp [cartesian]
  | cons entry rest ih =>
    obtain ⟨key, values⟩ := entry
    simp only [cartesian, List.mem_flatMap, List.mem_map]
    constructor
    · rintro ⟨value, hvalue, others, hothers, rfl⟩
      exact List.Forall₂.cons ⟨rfl, hvalue⟩ (ih.1 hothers)
    · intro h
      cases h with
      | @cons choice _ others _ hchoice hothers =>
        obtain ⟨_, value⟩ := choice
        obtain ⟨rfl, hvalue⟩ := hchoice
        exact ⟨value, hvalue, others, ih.2 hothers, rfl⟩

/-- So the keys of a choice are all keys, in order. -/
theorem keys_of_mem_cartesian {keys : Entries (List Tree)} {c : Combination}
    (h : c ∈ cartesian keys) : Entries.keys c = Entries.keys keys := by
  have hchoices := mem_cartesian_iff.1 h
  clear h
  induction hchoices with
  | nil => rfl
  | cons hchoice _ ih =>
    show _ :: Entries.keys _ = _ :: Entries.keys _
    rw [hchoice.1, ih]

/-- Where every key has a value, there is a choice. -/
theorem size_pos {keys : Entries (List Tree)} (h : ∀ entry ∈ keys, entry.2 ≠ []) :
    0 < size keys := by
  apply List.prod_pos
  intro count hcount
  obtain ⟨entry, hentry, rfl⟩ := List.mem_map.1 hcount
  exact List.length_pos_iff.2 (h entry hentry)

/-! ## §2. The limit -/

/-- Combinations that are continued for one more key, and then by every choice for the others,
    are continued by every choice for all of them. -/
theorem flatMap_extended (key : String) (values : List Tree) (rest : Entries (List Tree))
    (start : List Combination) :
    ((start.flatMap fun c => values.map fun value => c ++ [(key, value)]).flatMap
        fun c => (cartesian rest).map (c ++ ·))
      = start.flatMap fun c => (cartesian ((key, values) :: rest)).map (c ++ ·) := by
  rw [List.flatMap_assoc]
  refine congrArg (List.flatMap · start) (funext fun c => ?_)
  rw [cartesian, List.flatMap_map, List.map_flatMap]
  refine congrArg (List.flatMap · values) (funext fun value => ?_)
  rw [List.map_map]
  refine List.map_congr_left fun others _ => ?_
  show c ++ [(key, value)] ++ others = c ++ (key, value) :: others
  rw [List.append_assoc, List.singleton_append]

/-- **The limit is tested for the full product**, though it is tested on the way, and what it
    lets through is every combination so far continued by every choice. -/
theorem extendAll_eq {keys : Entries (List Tree)} (hkeys : ∀ entry ∈ keys, entry.2 ≠ [])
    {start : List Combination} (hstart : start.length ≤ Range.maxExpansion) :
    extendAll keys start =
      if Range.maxExpansion < start.length * size keys then .error .tooLarge
      else .ok (start.flatMap fun c => (cartesian keys).map (c ++ ·)) := by
  induction keys generalizing start with
  | nil =>
    have hsize : start.length * size [] = start.length := Nat.mul_one _
    rw [extendAll, hsize, if_neg (Nat.not_lt.2 hstart)]
    simp [cartesian]
  | cons entry rest ih =>
    obtain ⟨key, values⟩ := entry
    have hrest : ∀ entry ∈ rest, entry.2 ≠ [] :=
      fun entry hentry => hkeys entry (List.mem_cons_of_mem _ hentry)
    have hsize : start.length * size ((key, values) :: rest)
        = start.length * values.length * size rest := (Nat.mul_assoc _ _ _).symm
    show (extend key values start >>= extendAll rest) = _
    rw [hsize]
    by_cases hlarge : Range.maxExpansion < start.length * values.length
    · -- the keys that are left cannot bring the product back under the limit
      have hgrows : start.length * values.length
          ≤ start.length * values.length * size rest :=
        Nat.le_mul_of_pos_right _ (size_pos hrest)
      rw [if_pos (Nat.lt_of_lt_of_le hlarge hgrows), extend, if_pos hlarge]
      rfl
    · have hextend : extend key values start
          = .ok (start.flatMap fun c => values.map fun value => c ++ [(key, value)]) := by
        rw [extend, if_neg hlarge]
      have hlength := length_of_extend hextend
      rw [hextend]
      show extendAll rest _ = _
      rw [ih hrest (by rw [hlength]; exact Nat.not_lt.1 hlarge), hlength, flatMap_extended]

/-! ## §3. The order of the keys -/

theorem ordered_perm (keys : Entries (List Tree)) : (ordered keys).Perm keys :=
  List.mergeSort_perm keys _

/-- Sorted keys ascend. -/
theorem pairwise_ordered (keys : Entries (List Tree)) :
    (ordered keys).Pairwise fun a b => a.1 ≤ b.1 := by
  have hsorted : (ordered keys).Pairwise fun a b => decide (a.1 ≤ b.1) = true := by
    apply List.pairwise_mergeSort
    · intro a b c hab hbc
      exact decide_eq_true (String.le_trans (of_decide_eq_true hab) (of_decide_eq_true hbc))
    · intro a b
      rw [Bool.or_eq_true, decide_eq_true_eq, decide_eq_true_eq]
      exact String.le_total a.1 b.1
  exact hsorted.imp fun h => of_decide_eq_true h

theorem size_ordered (keys : Entries (List Tree)) : size (ordered keys) = size keys :=
  ((ordered_perm keys).map _).prod_eq

/-- Distinct keys ascend strictly. -/
theorem pairwise_keys_ordered {keys : Entries (List Tree)} (h : (Entries.keys keys).Nodup) :
    (Entries.keys (ordered keys)).Pairwise (· < ·) := by
  have hnodup : (Entries.keys (ordered keys)).Nodup :=
    ((ordered_perm keys).map Prod.fst).nodup_iff.2 h
  have hascend : (Entries.keys (ordered keys)).Pairwise (· ≤ ·) :=
    List.pairwise_map.2 (pairwise_ordered keys)
  exact (hascend.and hnodup).imp fun h => lt_of_le_of_ne h.1 h.2

/-- The written order of distinct keys is forgotten. -/
theorem ordered_eq_of_perm {keys others : Entries (List Tree)} (h : (Entries.keys keys).Nodup)
    (hperm : others.Perm keys) : ordered others = ordered keys := by
  have hsame : (ordered others).Perm (ordered keys) :=
    (ordered_perm others).trans (hperm.trans (ordered_perm keys).symm)
  refine List.Perm.eq_of_pairwise ?_ (pairwise_ordered others) (pairwise_ordered keys) hsame
  intro a b ha hb hab hba
  -- entries with one key are one entry
  have hkey : a.1 = b.1 := String.le_antisymm hab hba
  have ha' : a ∈ keys := hperm.subset ((ordered_perm others).subset ha)
  have hb' : b ∈ keys := (ordered_perm keys).subset hb
  exact List.inj_on_of_nodup_map h ha' hb' hkey

/-! ## §4. The keys that take part -/

/-- All texts among the values of a matrix can be written out. -/
def Expands (matrix : Entries (List MatrixValue)) : Prop :=
  ∀ entry ∈ matrix, ∀ s, MatrixValue.text s ∈ entry.2 → ∃ texts, Range.expand s = .ok texts

/-- The values that a value of a matrix stands for, if it can be written out. -/
def valuesOf : MatrixValue → List Tree
  | .number n => [.num n]
  | .text s => ((Range.expand s).toOption.getD []).map .str

/-- The keys that have values at all, each with its values written out in place. -/
def participating (matrix : Entries (List MatrixValue)) : Entries (List Tree) :=
  (matrix.map fun (key, values) => (key, values.flatMap valuesOf)).filter
    fun entry => !entry.2.isEmpty

theorem expandValues_eq {values : List MatrixValue}
    (h : ∀ s, MatrixValue.text s ∈ values → ∃ texts, Range.expand s = .ok texts) :
    expandValues values = .ok (values.flatMap valuesOf) := by
  induction values with
  | nil => rfl
  | cons value rest ih =>
    have hrest := ih fun s hs => h s (List.mem_cons_of_mem _ hs)
    have hvalue : expandValue value = .ok (valuesOf value) := by
      cases value with
      | number n => rfl
      | text s =>
        obtain ⟨texts, htexts⟩ := h s List.mem_cons_self
        simp only [expandValue, valuesOf, htexts]
        rfl
    rw [expandValues, hvalue, hrest]
    rfl

theorem participating_cons (key : String) (values : List MatrixValue)
    (rest : Entries (List MatrixValue)) :
    participating ((key, values) :: rest) =
      if (values.flatMap valuesOf).isEmpty then participating rest
      else (key, values.flatMap valuesOf) :: participating rest := by
  rw [participating, List.map_cons, List.filter_cons]
  cases (values.flatMap valuesOf).isEmpty <;> rfl

/-- The keys that take part, where all texts can be written out. -/
theorem participants_of_expands {matrix : Entries (List MatrixValue)} (h : Expands matrix) :
    participants matrix = .ok (participating matrix) := by
  induction matrix with
  | nil => rfl
  | cons entry rest ih =>
    obtain ⟨key, values⟩ := entry
    have hrest := ih fun entry hentry => h entry (List.mem_cons_of_mem _ hentry)
    have hvalues := expandValues_eq (h (key, values) List.mem_cons_self)
    rw [participants, hvalues, hrest, participating_cons]
    rfl

theorem ne_nil_of_mem_participating {matrix : Entries (List MatrixValue)}
    {entry : String × List Tree} (h : entry ∈ participating matrix) : entry.2 ≠ [] := by
  intro hempty
  have hkept := (List.mem_filter.1 h).2
  rw [hempty] at hkept
  cases hkept

theorem nodup_keys_participating {matrix : Entries (List MatrixValue)}
    (h : (Entries.keys matrix).Nodup) : (Entries.keys (participating matrix)).Nodup := by
  have hsublist : (participating matrix).Sublist
      (matrix.map fun (key, values) => (key, values.flatMap valuesOf)) := List.filter_sublist
  have hkeys : Entries.keys (matrix.map fun (key, values) => (key, values.flatMap valuesOf))
      = Entries.keys matrix := List.map_map
  exact h.sublist (hkeys ▸ hsublist.map Prod.fst)

/-! ## §5. Combinations -/

/-- The combinations of a matrix, where all texts can be written out. -/
theorem combinations_of_expands {matrix : Entries (List MatrixValue)} (h : Expands matrix) :
    combinations matrix =
      if participating matrix = [] then .ok none
      else if Range.maxExpansion < size (participating matrix) then .error .tooLarge
      else .ok (some (cartesian (ordered (participating matrix)))) := by
  have hkeys : ∀ entry ∈ ordered (participating matrix), entry.2 ≠ [] :=
    fun entry hentry => ne_nil_of_mem_participating ((ordered_perm _).subset hentry)
  have hsize := size_ordered (participating matrix)
  have hstart : ([[]] : List Combination).length ≤ Range.maxExpansion := by decide
  have hproduct := extendAll_eq hkeys hstart
  rw [List.length_singleton, Nat.one_mul, hsize, List.flatMap_singleton] at hproduct
  unfold combinations
  rw [participants_of_expands h]
  show (if (participating matrix).isEmpty then Except.ok none
    else extendAll (ordered (participating matrix)) [[]] >>= fun all => .ok (some all)) = _
  rw [hproduct]
  by_cases hnone : participating matrix = []
  · rw [if_pos hnone, if_pos (List.isEmpty_iff.2 hnone)]
  · rw [if_neg hnone, if_neg (fun hempty => hnone (List.isEmpty_iff.1 hempty))]
    split
    · rfl
    · show Except.ok (some ((cartesian _).map ([] ++ ·))) = _
      rw [List.map_congr_left fun c _ => List.nil_append c, List.map_id']

end Matrix

namespace Patch

open DesignTokens.Matrix (Expands participating size cartesian ordered combinations_of_expands)

/-- The combinations of a patch are those of its matrix; no matrix is as good as an empty one. -/
theorem combinations_eq (p : Patch) :
    p.combinations = Matrix.combinations (p.matrix.getD []) := by
  unfold combinations
  cases p.matrix <;> rfl

/-- **What a patch runs for**, where all texts of its matrix can be written out.  It runs once
    exactly if no key has values; it is refused exactly if the product of the value counts is
    beyond the limit; else it runs for the full product of the keys in ascending order, the
    least one varying slowest.  The product has every choice of a value for each key, and no
    more than these.  So it does not matter in which order the keys are written. -/
theorem combinations_eq_product (p : Patch)
    (hkeys : (Entries.keys (p.matrix.getD [])).Nodup) (hexpands : Expands (p.matrix.getD [])) :
    let keys := participating (p.matrix.getD [])
    (p.combinations = .ok none ↔ keys = []) ∧
    (p.combinations = .error .tooLarge ↔ Range.maxExpansion < size keys) ∧
    (keys ≠ [] → size keys ≤ Range.maxExpansion →
      p.combinations = .ok (some (cartesian (ordered keys)))) ∧
    (ordered keys).Perm keys ∧ (Entries.keys (ordered keys)).Pairwise (· < ·) ∧
    (∀ c ∈ cartesian (ordered keys), Entries.keys c = Entries.keys (ordered keys)) ∧
    (∀ c, c ∈ cartesian (ordered keys) ↔
      List.Forall₂ (fun choice entry => choice.1 = entry.1 ∧ choice.2 ∈ entry.2) c
        (ordered keys)) ∧
    (cartesian (ordered keys)).length = size keys ∧
    ∀ other : Patch, (other.matrix.getD []).Perm (p.matrix.getD []) →
      other.combinations = p.combinations := by
  intro keys
  have hcombinations : p.combinations =
      if keys = [] then .ok none
      else if Range.maxExpansion < size keys then .error .tooLarge
      else .ok (some (cartesian (ordered keys))) := by
    rw [combinations_eq, combinations_of_expands hexpands]
  have hnodup : (Entries.keys keys).Nodup := Matrix.nodup_keys_participating hkeys
  have hone : ¬ Range.maxExpansion < size [] := by decide
  refine ⟨?_, ?_, ?_, Matrix.ordered_perm keys, Matrix.pairwise_keys_ordered hnodup,
    fun c hc => Matrix.keys_of_mem_cartesian hc, fun c => Matrix.mem_cartesian_iff,
    (Matrix.length_cartesian _).trans (Matrix.size_ordered keys), ?_⟩
  · rw [hcombinations]
    by_cases hnone : keys = []
    · rw [if_pos hnone]
      exact iff_of_true rfl hnone
    · rw [if_neg hnone]
      refine iff_of_false ?_ hnone
      split <;> exact fun h => nomatch h
  · rw [hcombinations]
    by_cases hnone : keys = []
    · -- the product of nothing is one, which is within the limit
      rw [if_pos hnone, hnone]
      exact iff_of_false (fun h => nomatch h) hone
    · rw [if_neg hnone]
      by_cases hlarge : Range.maxExpansion < size keys
      · rw [if_pos hlarge]
        exact iff_of_true rfl hlarge
      · rw [if_neg hlarge]
        exact iff_of_false (fun h => nomatch h) hlarge
  · intro hsome hfits
    rw [hcombinations, if_neg hsome, if_neg (Nat.not_lt.2 hfits)]
  · intro other hperm
    have hotherExpands : Expands (other.matrix.getD []) :=
      fun entry hentry => hexpands entry (hperm.subset hentry)
    have hsame : (participating (other.matrix.getD [])).Perm keys :=
      (hperm.map _).filter _
    have hnone : participating (other.matrix.getD []) = [] ↔ keys = [] := by
      rw [← List.length_eq_zero_iff, hsame.length_eq, List.length_eq_zero_iff]
    have hsize : size (participating (other.matrix.getD [])) = size keys :=
      (hsame.map _).prod_eq
    rw [combinations_eq, combinations_of_expands hotherExpands, hcombinations, hsize,
      Matrix.ordered_eq_of_perm hnodup hsame]
    simp only [hnone]

/-- A matrix with a range among its values, and a key without values in front. -/
def sizedMatrix : Entries (List MatrixValue) :=
  [("tone", []), ("level", [.number (.int 1)]), ("size", [.text "$[[s..m]]", .text "xl"])]

/-- The patch with a matrix and no operations. -/
def ofMatrix (matrix : Entries (List MatrixValue)) : Patch :=
  { Patch.ofOperations [] with matrix := some matrix }

/-- The patch runs three times, for one level and for the sizes in order, also when its matrix
    is written the other way round. -/
theorem combinations_eq_product_sized :
    (Entries.keys sizedMatrix).Nodup ∧ Expands sizedMatrix ∧
      (ofMatrix sizedMatrix).combinations
        = .ok (some [[("level", .num (.int 1)), ("size", .str "s")],
            [("level", .num (.int 1)), ("size", .str "m")],
            [("level", .num (.int 1)), ("size", .str "xl")]]) ∧
      (ofMatrix sizedMatrix.reverse).combinations = (ofMatrix sizedMatrix).combinations := by
  have hkeys : (Entries.keys sizedMatrix).Nodup := by decide
  have hexpands : Expands sizedMatrix := by
    intro entry hentry s hs
    have hwritten : s = "$[[s..m]]" ∨ s = "xl" := by
      simp only [sizedMatrix, List.mem_cons, List.not_mem_nil, or_false] at hentry
      rcases hentry with rfl | rfl | rfl
      · cases hs
      · cases List.mem_singleton.1 hs
      · simpa using hs
    rcases hwritten with rfl | rfl
    · exact ⟨["s", "m"], eq_ok_of_toOption (by decide +kernel)⟩
    · exact ⟨["xl"], eq_ok_of_toOption (by decide +kernel)⟩
  obtain ⟨-, -, hproduct, -, -, -, -, -, hreversed⟩ :=
    combinations_eq_product (ofMatrix sizedMatrix) hkeys hexpands
  refine ⟨hkeys, hexpands, ?_, hreversed _ sizedMatrix.reverse_perm⟩
  have hparticipating : participating sizedMatrix
      = [("level", [.num (.int 1)]), ("size", [.str "s", .str "m", .str "xl"])] := by
    decide +kernel
  have hordered : ordered (participating sizedMatrix) = participating sizedMatrix := by
    rw [hparticipating]
    exact List.mergeSort_of_pairwise (by decide)
  rw [hproduct (by decide +kernel) (by decide +kernel)]
  show Except.ok (some (cartesian (ordered (participating sizedMatrix)))) = _
  rw [hordered, hparticipating]
  rfl

end Patch

end DesignTokens
