/-
  DesignTokens.Proofs.Tree.Merge — what laying one tree over another leaves.

  An object that is laid over another is laid over it entry by entry.  Where its keys are
  distinct each of them is met once, so what is found under a key in the end is decided by the
  two values that the objects held there.  From this a tree that is laid over another twice
  is seen to leave what it leaves when it is laid over it once.

  Main facts:
    * `get?_mergeFields_of_mem`, `get?_mergeFields_of_not_mem` — the values after a merge.
    * `keys_mergeFields` — the keys after a merge, in their order.
    * `mergeFields_eq_self` — entries that change nothing one by one change nothing together.
    * `merge_merge_self` — merging a tree again changes nothing.
-/
import DesignTokens.Tree.Merge
import DesignTokens.Proofs.Tree.Inside

namespace DesignTokens.Tree

/-! ## §1. Values under keys -/

section Fields

variable {key : String} {value : Tree} {fields top : List (String × Tree)}

/-- Keys that the upper object has not keep their values. -/
theorem get?_mergeFields_of_not_mem (h : key ∉ Entries.keys top) :
    Entries.get? key (mergeFields fields top) = Entries.get? key fields := by
  induction top generalizing fields with
  | nil => rw [mergeFields_nil]
  | cons entry rest ih =>
    obtain ⟨k, v⟩ := entry
    have hne : key ≠ k := List.ne_of_not_mem_cons h
    have hrest : key ∉ Entries.keys rest := List.not_mem_of_not_mem_cons h
    rw [mergeFields_cons, ih hrest, Entries.get?_put_of_ne hne]

/-- **The value under a key of the upper object** is laid over the lower one's, if that has
    one there. -/
theorem get?_mergeFields_of_mem (hkeys : (Entries.keys top).Nodup) (hmem : (key, value) ∈ top) :
    Entries.get? key (mergeFields fields top)
      = some ((Entries.get? key fields).elim value fun old => old.merge value) := by
  induction top generalizing fields with
  | nil => cases hmem
  | cons entry rest ih =>
    obtain ⟨k, v⟩ := entry
    obtain ⟨hk, hrest⟩ := List.nodup_cons.1 hkeys
    rw [mergeFields_cons]
    rcases List.mem_cons.1 hmem with heq | hlater
    · cases heq
      rw [get?_mergeFields_of_not_mem hk, Entries.get?_put_self]
      cases Entries.get? key fields with
      | none => rfl
      | some old => rfl
    · have hkey : key ∈ Entries.keys rest := List.mem_map_of_mem (f := Prod.fst) hlater
      have hne : key ≠ k := by
        rintro rfl
        exact hk hkey
      rw [ih hrest hlater, Entries.get?_put_of_ne hne]

/-- **The keys after a merge** are those of the lower object in their order, and behind them the
    new ones of the upper object in theirs. -/
theorem keys_mergeFields (hkeys : (Entries.keys top).Nodup) :
    Entries.keys (mergeFields fields top)
      = Entries.keys fields ++ (Entries.keys top).filter fun k => k ∉ Entries.keys fields := by
  induction top generalizing fields with
  | nil =>
    rw [mergeFields_nil]
    exact (List.append_nil _).symm
  | cons entry rest ih =>
    obtain ⟨k, v⟩ := entry
    obtain ⟨hk, hrest⟩ := List.nodup_cons.1 hkeys
    rw [mergeFields_cons, ih hrest]
    show _ = Entries.keys fields ++ (k :: Entries.keys rest).filter _
    by_cases hmem : k ∈ Entries.keys fields
    · rw [Entries.keys_put_of_mem hmem, List.filter_cons_of_neg (by simpa using hmem)]
    · -- the key stands behind the lower ones now, and the rest does not bring it again
      have hothers : (Entries.keys rest).filter (fun j => j ∉ Entries.keys fields ++ [k])
          = (Entries.keys rest).filter (fun j => j ∉ Entries.keys fields) := by
        refine List.filter_congr fun j hj => decide_eq_decide.2 ?_
        have hne : j ≠ k := fun heq => hk (heq ▸ hj)
        rw [List.mem_append, List.mem_singleton, or_iff_left hne]
      rw [Entries.keys_put_of_not_mem hmem, hothers, List.filter_cons_of_pos (by simpa using hmem),
        List.append_assoc, List.singleton_append]

/-- **Entries that change nothing one by one change nothing together.** -/
theorem mergeFields_eq_self
    (h : ∀ entry ∈ top, ∃ old, Entries.get? entry.1 fields = some old ∧ old.merge entry.2 = old) :
    mergeFields fields top = fields := by
  induction top with
  | nil => rw [mergeFields_nil]
  | cons entry rest ih =>
    obtain ⟨k, v⟩ := entry
    obtain ⟨⟨old, hold, hmerge⟩, hrest⟩ := List.forall_mem_cons.1 h
    rw [mergeFields_cons]
    dsimp only at hold hmerge
    rw [hold]
    dsimp only
    rw [hmerge, Entries.put_of_get? hold, ih hrest]

end Fields

/-! ## §2. Merging again -/

theorem merge_null (top : Tree) : Tree.null.merge top = top := by
  cases top with
  | null | bool | num | str | arr => rw [merge_of_not_isObject rfl]
  | obj top => rfl

mutual

/-- **Merging a tree again changes nothing**, provided that its objects have distinct keys. -/
theorem merge_merge_self : (top : Tree) → top.Distinct → (base : Tree) →
    (base.merge top).merge top = base.merge top
  | .null, _, base | .bool _, _, base | .num _, _, base | .str _, _, base | .arr _, _, base => by
    rw [merge_of_not_isObject rfl, merge_of_not_isObject rfl]
  | .obj top, h, base => by
    obtain ⟨hkeys, hvalues⟩ := distinct_obj_iff.1 h
    have hagain : ∀ entry ∈ top, ∀ base : Tree,
        (base.merge entry.2).merge entry.2 = base.merge entry.2 :=
      merge_merge_self_of_mem top hvalues
    -- a value that is laid over nothing has been laid over itself
    have hself : ∀ entry ∈ top, entry.2.merge entry.2 = entry.2 := by
      intro entry hentry
      have hnull := hagain entry hentry .null
      rwa [merge_null] at hnull
    cases base with
    | obj fields =>
      rw [merge_obj_obj, merge_obj_obj]
      refine congrArg Tree.obj (mergeFields_eq_self fun entry hentry => ?_)
      refine ⟨_, get?_mergeFields_of_mem hkeys hentry, ?_⟩
      cases Entries.get? entry.1 fields with
      | none => exact hself entry hentry
      | some old => exact hagain entry hentry old
    | null | bool | num | str | arr =>
      have hreplaced : mergeFields top top = top :=
        mergeFields_eq_self fun entry hentry =>
          ⟨entry.2, Entries.get?_of_mem hkeys hentry, hself entry hentry⟩
      show (Tree.obj top).merge (.obj top) = .obj top
      rw [merge_obj_obj, hreplaced]

theorem merge_merge_self_of_mem : (fields : List (String × Tree)) →
    (∀ entry ∈ fields, entry.2.Distinct) →
      ∀ entry ∈ fields, ∀ base : Tree,
        (base.merge entry.2).merge entry.2 = base.merge entry.2
  | [], _ => List.forall_mem_nil _
  | (_, value) :: rest, h => by
    obtain ⟨hvalue, hrest⟩ := List.forall_mem_cons.1 h
    exact List.forall_mem_cons.2
      ⟨merge_merge_self value hvalue, merge_merge_self_of_mem rest hrest⟩

end

/-- A tree that is laid over itself stays what it is. -/
theorem merge_self {t : Tree} (h : t.Distinct) : t.merge t = t := by
  have hnull : (Tree.null.merge t).merge t = Tree.null.merge t := merge_merge_self t h .null
  rwa [merge_null] at hnull

end DesignTokens.Tree
