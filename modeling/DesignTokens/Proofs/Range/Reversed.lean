/-
  DesignTokens.Proofs.Range.Reversed — ranges that are read backwards.

  A range that is read backwards has the same ends, so it is refused for the same reason or walks
  the same way back; and what an index is called does not depend on the direction.  So both
  directions come to the same, up to the order of the names and of the ends in a failure.

  Main facts:
    * `expandPair_reverse` — what a pair of checkpoints comes to when it is read backwards.
    * `exists_unclassified` — neither direction gets past an end that is no checkpoint.
    * `ranges_reverse` — ranges expand and fail alike in both directions.
-/
import DesignTokens.Proofs.Range.Pair

namespace DesignTokens.Range

/-! ## §1. The two directions -/

section Directions

variable {first last : String}

/-- **What a pair of checkpoints comes to** when it is read backwards. -/
theorem expandPair_reverse {a b : Checkpoint} (ha : classify first.toList = some a)
    (hb : classify last.toList = some b) :
    expandPair last first =
      if continuous a b = false then .error (.discontinuity last first)
      else if maxExpansion ≤ (b.index - a.index).natAbs then
        .error (.tooLarge (last ++ ".." ++ first))
      else ((walk a.index b.index).mapM (spell (spellings a b))).elim
        (.error (.discontinuity last first)) fun names => .ok names.reverse := by
  have hdistance : (a.index - b.index).natAbs = (b.index - a.index).natAbs := by omega
  -- the walk back is the walk, and its names are those of the walk, both in the opposite order
  rw [expandPair_of_classify hb ha, continuous_comm b a, hdistance, ← reverse_walk, mapM_reverse]
  cases hab : continuous a b with
  | false => rfl
  | true =>
    have hspell : spell (spellings b a) = spell (spellings a b) :=
      funext (spell_spellings_comm (proper_of_classify ha) (proper_of_classify hb) hab)
    rw [hspell]
    cases (walk a.index b.index).mapM (spell (spellings a b)) with
    | none => rfl
    | some names => rfl

/-- An end that is no checkpoint is found before anything else, and the failure names one. -/
theorem exists_unclassified (h : classify first.toList = none ∨ classify last.toList = none) :
    ∃ name, expandPair first last = .error (.unclassified first last name) := by
  cases ha : classify first.toList with
  | none => exact ⟨first, expandPair_of_not_first ha⟩
  | some a =>
    have hlast : classify last.toList = none :=
      h.resolve_left (by rw [ha]; exact Option.some_ne_none a)
    exact ⟨last, expandPair_of_not_last ha hlast⟩

end Directions

/-! ## §2. Ranges in either direction -/

/-- **Ranges expand and fail alike in both directions.**  A range that is read backwards has the
    same names in the opposite order; where one direction has a gap or too many values, so has
    the other. -/
theorem ranges_reverse (first last : String) :
    (∀ names, expandPair first last = .ok names ↔ expandPair last first = .ok names.reverse) ∧
    ((∃ a b, expandPair first last = .error (.discontinuity a b)) ↔
      ∃ a b, expandPair last first = .error (.discontinuity a b)) ∧
    ((∃ text, expandPair first last = .error (.tooLarge text)) ↔
      ∃ text, expandPair last first = .error (.tooLarge text)) := by
  by_cases hends : classify first.toList = none ∨ classify last.toList = none
  · -- neither direction comes further than to its ends
    obtain ⟨name, h⟩ := exists_unclassified hends
    obtain ⟨name', h'⟩ := exists_unclassified hends.symm
    rw [h, h']
    simp
  · obtain ⟨hfirst, hlast⟩ := not_or.1 hends
    obtain ⟨a, ha⟩ := Option.ne_none_iff_exists'.1 hfirst
    obtain ⟨b, hb⟩ := Option.ne_none_iff_exists'.1 hlast
    rw [expandPair_of_classify ha hb, expandPair_reverse ha hb]
    cases continuous a b with
    | false => simp
    | true =>
      by_cases hfar : maxExpansion ≤ (b.index - a.index).natAbs
      · simp [hfar]
      · cases (walk a.index b.index).mapM (spell (spellings a b)) <;> simp [hfar]

end DesignTokens.Range
