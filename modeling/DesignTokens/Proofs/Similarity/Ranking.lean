/-
  DesignTokens.Proofs.Similarity.Ranking — suggestions depend on which names there are, and on
  nothing else.

  Names are scored, sorted and cleared of repeats, where a repeat is only looked for beside the
  name itself.  That finds all of them: equal names have equal scores, so the order puts nothing
  between them.  The order is total and tells any two names apart, so a set of names has one
  list in that order, and neither the order in which candidates are given nor how often one is
  given leaves a trace.

  Main facts:
    * `pairwise_dropRepeats` — in an order without ties, nothing equal is left.
    * `isRanking_ranked` — what is suggested, and in which order.
    * `isRanking_unique` — there is one such list.
    * `suggestions_of_names` — so the set of names decides.
-/
import DesignTokens.Similarity
import Mathlib.Data.String.Basic
import Mathlib.Order.Defs.LinearOrder

namespace DesignTokens.Similarity

/-! ## §1. Repeats -/

/-- **In a sorted list repeats stand side by side.**  Where only equal elements go before each
    other, none of those that are left are equal. -/
theorem pairwise_dropRepeats {α : Type} [DecidableEq α] {before : α → α → Prop} {xs : List α}
    (hantisymm : ∀ a b, before a b → before b a → a = b) (h : xs.Pairwise before) :
    (dropRepeats xs).Pairwise fun a b => before a b ∧ a ≠ b := by
  fun_induction dropRepeats xs with
  | case1 b rest ih => exact ih h.of_cons
  | case2 a b rest hne ih =>
    obtain ⟨ha, hrest⟩ := List.pairwise_cons.1 h
    refine List.Pairwise.cons (fun x hx => ?_) (ih hrest)
    have hmem : x ∈ b :: rest := mem_dropRepeats.1 hx
    refine ⟨ha x hmem, ?_⟩
    rintro rfl
    rcases List.mem_cons.1 hmem with heq | hbehind
    · exact hne heq
    · -- the element that comes in between would be the same
      exact hne (hantisymm _ _ (ha b List.mem_cons_self) (List.rel_of_pairwise_cons hrest hbehind))
  | case3 short hshort =>
    cases short with
    | nil => exact List.Pairwise.nil
    | cons a rest =>
      cases rest with
      | nil => exact List.pairwise_singleton _ a
      | cons b rest => exact absurd rfl (hshort a b rest)

/-! ## §2. The order of names -/

variable {α : Type} [LinearOrder α]

/-- A name goes before another: it has the higher rank, or the same rank and comes first in the
    order of names. -/
def Before (rank : String → α) (a b : String) : Prop :=
  rank b < rank a ∨ (rank a = rank b ∧ a ≤ b)

theorem goesBefore_iff {rank : String → α} {a b : String} :
    goesBefore (rank a, a) (rank b, b) = true ↔ Before rank a b := by
  simp [goesBefore, Before]

theorem Before.antisymm {rank : String → α} {a b : String} (h : Before rank a b)
    (h' : Before rank b a) : a = b := by
  rcases h with hlt | ⟨heq, hle⟩
  · rcases h' with hlt' | ⟨heq', -⟩
    · exact absurd hlt (lt_asymm hlt')
    · exact absurd heq' hlt.ne
  · rcases h' with hlt' | ⟨-, hle'⟩
    · exact absurd heq hlt'.ne
    · exact le_antisymm hle hle'

theorem Before.trans {rank : String → α} {a b c : String} (h : Before rank a b)
    (h' : Before rank b c) : Before rank a c := by
  rcases h with hlt | ⟨heq, hle⟩
  · rcases h' with hlt' | ⟨heq', -⟩
    · exact Or.inl (hlt'.trans hlt)
    · exact Or.inl (heq' ▸ hlt)
  · rcases h' with hlt' | ⟨heq', hle'⟩
    · exact Or.inl (heq ▸ hlt')
    · exact Or.inr ⟨heq.trans heq', hle.trans hle'⟩

theorem Before.total (rank : String → α) (a b : String) : Before rank a b ∨ Before rank b a := by
  rcases lt_trichotomy (rank a) (rank b) with hlt | heq | hlt
  · exact Or.inr (Or.inl hlt)
  · exact (le_total a b).imp (fun hle => Or.inr ⟨heq, hle⟩) fun hle => Or.inr ⟨heq.symm, hle⟩
  · exact Or.inl (Or.inl hlt)

/-- The names that are ranked are sorted before repeats are dropped. -/
theorem ranked_eq (rank : String → α) (bound : α) (query : String) (candidates : List String) :
    ranked rank bound query candidates
      = dropRepeats (((candidates.filter (· ≠ query)).filter (bound < rank ·)).mergeSort
          fun a b => goesBefore (rank a, a) (rank b, b)) := by
  unfold ranked
  generalize candidates.filter (· ≠ query) = others
  -- every pair that is sorted is a name behind its rank, so the names can be sorted as well
  have hscored : (others.map fun name => (rank name, name)).filter
        (fun pair => decide (bound < pair.1))
      = (others.filter (bound < rank ·)).map fun name => (rank name, name) := List.filter_map
  have hsort : ((others.filter (bound < rank ·)).map fun name => (rank name, name)).mergeSort
        goesBefore
      = ((others.filter (bound < rank ·)).mergeSort
          fun a b => goesBefore (rank a, a) (rank b, b)).map fun name => (rank name, name) :=
    (List.map_mergeSort (s := goesBefore) (f := fun name => (rank name, name))
      fun _ _ _ _ => rfl).symm
  show dropRepeats ((((others.map fun name => (rank name, name)).filter
    (fun pair => decide (bound < pair.1))).mergeSort goesBefore).map Prod.snd) = _
  rw [hscored, hsort, List.map_map]
  exact congrArg dropRepeats (List.map_id _)

theorem pairwise_ranked (rank : String → α) (bound : α) (query : String)
    (candidates : List String) :
    (ranked rank bound query candidates).Pairwise fun a b => Before rank a b ∧ a ≠ b := by
  rw [ranked_eq]
  generalize (candidates.filter (· ≠ query)).filter (bound < rank ·) = names
  refine pairwise_dropRepeats (fun a b => Before.antisymm) ?_
  have hsorted : (names.mergeSort fun a b => goesBefore (rank a, a) (rank b, b)).Pairwise
      fun a b => goesBefore (rank a, a) (rank b, b) = true := by
    apply List.pairwise_mergeSort
    · intro a b c hab hbc
      exact goesBefore_iff.2 ((goesBefore_iff.1 hab).trans (goesBefore_iff.1 hbc))
    · intro a b
      rw [Bool.or_eq_true, goesBefore_iff, goesBefore_iff]
      exact Before.total rank a b
  exact hsorted.imp fun h => goesBefore_iff.1 h

/-! ## §3. Rankings -/

/-- What should be suggested for a query: each candidate other than the query that ranks above the
    bound, once, by descending rank and by name among equal ranks. -/
structure IsRanking (rank : String → α) (bound : α) (query : String)
    (candidates names : List String) : Prop where
  nodup : names.Nodup
  mem_iff : ∀ name, name ∈ names ↔ name ∈ candidates ∧ name ≠ query ∧ bound < rank name
  ordered : names.Pairwise fun a b => rank b < rank a ∨ (rank a = rank b ∧ a < b)

/-- **This is what is suggested.** -/
theorem isRanking_ranked (rank : String → α) (bound : α) (query : String)
    (candidates : List String) :
    IsRanking rank bound query candidates (ranked rank bound query candidates) where
  nodup := (pairwise_ranked rank bound query candidates).imp fun h => h.2
  mem_iff := fun _ => mem_ranked
  ordered := (pairwise_ranked rank bound query candidates).imp fun h =>
    h.1.imp id fun htie => ⟨htie.1, lt_of_le_of_ne htie.2 h.2⟩

/-- **The names decide**: rankings of candidates with the same names are the same. -/
theorem isRanking_unique {rank : String → α} {bound : α} {query : String}
    {candidates others names names' : List String}
    (hsame : ∀ name, name ∈ others ↔ name ∈ candidates)
    (h : IsRanking rank bound query candidates names)
    (h' : IsRanking rank bound query others names') : names' = names := by
  have hmem : ∀ name, name ∈ names' ↔ name ∈ names := by
    intro name
    rw [h'.mem_iff, h.mem_iff, hsame]
  have hantisymm : ∀ a b, a ∈ names' → b ∈ names → Before rank a b → Before rank b a → a = b :=
    fun a b _ _ => Before.antisymm
  refine List.Perm.eq_of_pairwise hantisymm ?_ ?_
    ((List.perm_ext_iff_of_nodup h'.nodup h.nodup).2 hmem)
  · exact h'.ordered.imp fun hab => hab.imp id fun htie => ⟨htie.1, htie.2.le⟩
  · exact h.ordered.imp fun hab => hab.imp id fun htie => ⟨htie.1, htie.2.le⟩

/-- **Suggestions depend on the set of names only.**  Whatever a name's rank is taken for, what is
    ranked are the candidates other than the query above the bound, each once, by descending rank
    and by name among equal ranks.  Nothing else is such a list; so candidates with the same names
    are ranked alike, in whatever order and however often they are given.  Suggestions are the
    ranking by score. -/
theorem suggestions_of_names (rank : String → α) (bound : α) (query : String)
    (candidates : List String) :
    IsRanking rank bound query candidates (ranked rank bound query candidates) ∧
    (∀ names, IsRanking rank bound query candidates names →
      names = ranked rank bound query candidates) ∧
    (∀ others, (∀ name, name ∈ others ↔ name ∈ candidates) →
      ranked rank bound query others = ranked rank bound query candidates) ∧
    IsRanking (fun name => place (score query name)) (place threshold) query candidates
      (suggestions query candidates) ∧
    (∀ others, (∀ name, name ∈ others ↔ name ∈ candidates) →
      suggestions query others = suggestions query candidates) := by
  have hranked := isRanking_ranked rank bound query candidates
  have hsuggested := isRanking_ranked (fun name => place (score query name)) (place threshold)
    query candidates
  refine ⟨hranked, ?_, ?_, hsuggested, ?_⟩
  · intro names hnames
    exact isRanking_unique (fun _ => Iff.rfl) hranked hnames
  · intro others hsame
    exact isRanking_unique hsame hranked (isRanking_ranked rank bound query others)
  · intro others hsame
    exact isRanking_unique hsame hsuggested (isRanking_ranked _ _ query others)

end DesignTokens.Similarity
