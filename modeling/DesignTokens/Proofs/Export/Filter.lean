/-
  DesignTokens.Proofs.Export.Filter — what an export keeps.

  A node is left exactly when a tip of it is exported.  So the tips of the exported part are
  those that are exported, in the same order; and the item of an array comes to stand behind as
  many items as there are in front of it below which something is exported.

  The positions are counted along a path, step by step: behind each step only what is kept below
  it matters.  The keys of an object have to be distinct for this, or what is kept below two
  equal keys could not be told apart.

  Main facts:
    * `filterNode_eq_none_iff` — a node is left exactly when a tip of it is exported.
    * `tips_of_filterNode` — the tips of what is left of a node.
    * `pruned_of_filterNode` — what is left of a node has its fields and items in their order.
    * `export_keeps` — what an export keeps.
-/
import DesignTokens.Export.Filter
import DesignTokens.Proofs.Tree.Inside
import DesignTokens.Proofs.Tree.Tips
import Mathlib.Data.List.Forall2

namespace DesignTokens.Tree

/-! ## §1. New positions -/

/-- What follows on a path that starts with the step. -/
def Step.behind? (step : Step) : List Step → Option (List Step)
  | [] => none
  | head :: rest => if head = step then some rest else none

/-- What follows behind a step on the paths that start with it. -/
def keptBelow (step : Step) (kept : List (List Step)) : List (List Step) :=
  kept.filterMap step.behind?

/-- The number of the items in front of a position below which something is kept. -/
def rank (kept : List (List Step)) (position : Nat) : Nat :=
  (List.range position).countP fun other => !(keptBelow (.item other) kept).isEmpty

/-- A path among the paths that are kept: keys stay, and positions become ranks. -/
def renumber (kept : List (List Step)) : List Step → List Step
  | [] => []
  | .key name :: rest => .key name :: renumber (keptBelow (.key name) kept) rest
  | .item position :: rest =>
    .item (rank kept position) :: renumber (keptBelow (.item position) kept) rest

/-- The tip at its path among the paths that are kept. -/
def Tip.among (kept : List (List Step)) (tip : Tip) : Tip :=
  { tip with path := renumber kept tip.path }

theorem rank_succ (kept : List (List Step)) (position : Nat) :
    rank kept (position + 1) =
      rank kept position + if keptBelow (.item position) kept = [] then 0 else 1 := by
  unfold rank
  rw [List.range_succ, List.countP_append, List.countP_singleton]
  congr 1
  by_cases hnil : keptBelow (.item position) kept = []
  · rw [hnil]
    rfl
  · rw [if_neg hnil, if_pos (by simpa using hnil)]

theorem keptBelow_append (step : Step) (front rest : List (List Step)) :
    keptBelow step (front ++ rest) = keptBelow step front ++ keptBelow step rest :=
  List.filterMap_append

theorem keptBelow_under (step : Step) (tips : List Tip) :
    keptBelow step ((tips.map (Tip.under step)).map Tip.path) = tips.map Tip.path := by
  induction tips with
  | nil => rfl
  | cons tip tips ih =>
    have hstep : step.behind? (tip.under step).path = some tip.path := if_pos rfl
    unfold keptBelow at ih ⊢
    rw [List.map_cons, List.map_cons, List.filterMap_cons_some hstep, ih, List.map_cons]

/-- Below a step nothing is kept where every path starts with another one. -/
theorem keptBelow_eq_nil {step : Step} {tips : List Tip}
    (h : ∀ tip ∈ tips, ∃ other rest, other ≠ step ∧ tip.path = other :: rest) :
    keptBelow step (tips.map Tip.path) = [] := by
  unfold keptBelow
  rw [List.filterMap_map, List.filterMap_eq_nil_iff]
  intro tip htip
  obtain ⟨other, rest, hne, hpath⟩ := h tip htip
  show step.behind? tip.path = none
  rw [hpath]
  exact if_neg hne

/-- Behind a step there is kept what is under it. -/
theorem keptBelow_under_append {step : Step} {tips others : List Tip}
    (h : ∀ tip ∈ others, ∃ other rest, other ≠ step ∧ tip.path = other :: rest) :
    keptBelow step ((tips.map (Tip.under step) ++ others).map Tip.path) = tips.map Tip.path := by
  rw [List.map_append, keptBelow_append, keptBelow_under, keptBelow_eq_nil h, List.append_nil]

/-- What is under one step does not matter behind another one. -/
theorem keptBelow_under_append_of_ne {step other : Step} (h : step ≠ other)
    (tips others : List Tip) :
    keptBelow other ((tips.map (Tip.under step) ++ others).map Tip.path)
      = keptBelow other (others.map Tip.path) := by
  have hnil : keptBelow other ((tips.map (Tip.under step)).map Tip.path) = [] := by
    apply keptBelow_eq_nil
    intro tip htip
    obtain ⟨child, -, rfl⟩ := List.mem_map.1 htip
    exact ⟨step, child.path, h, rfl⟩
  rw [List.map_append, keptBelow_append, hnil, List.nil_append]

theorem map_among_under_item (kept : List (List Step)) (position : Nat) (tips : List Tip) :
    (tips.map (Tip.under (.item position))).map (Tip.among kept)
      = (tips.map (Tip.among (keptBelow (.item position) kept))).map
          (Tip.under (.item (rank kept position))) := by
  rw [List.map_map, List.map_map]
  rfl

theorem map_among_under_key (kept : List (List Step)) (name : String) (tips : List Tip) :
    (tips.map (Tip.under (.key name))).map (Tip.among kept)
      = (tips.map (Tip.among (keptBelow (.key name) kept))).map (Tip.under (.key name)) := by
  rw [List.map_map, List.map_map]
  rfl

/-! ## §2. Exported tips -/

section
variable (keep : String → Bool)

/-- The tips of a node whose addresses are kept, if the node has an address itself. -/
def exportedFrom (address : String) (tips : List Tip) : List Tip :=
  tips.filter fun tip => keep ((tip.path.map Step.text).foldl (placeStep "/") address)

variable {keep}

theorem exportedFrom_append (address : String) (front rest : List Tip) :
    exportedFrom keep address (front ++ rest)
      = exportedFrom keep address front ++ exportedFrom keep address rest :=
  List.filter_append ..

/-- The address of a child has its step behind that of its parent. -/
theorem exportedFrom_under (address : String) (step : Step) (tips : List Tip) :
    exportedFrom keep address (tips.map (Tip.under step))
      = (exportedFrom keep (placeStep "/" address step.text) tips).map (Tip.under step) :=
  List.filter_map ..

theorem exportedFrom_scalar {address : String} {t : Tree} (h : t.isContainer = false) :
    exportedFrom keep address t.tips = if keep address then [⟨[], t⟩] else [] := by
  rw [tips_of_scalar h]
  unfold exportedFrom
  rw [List.filter_cons]
  rfl

/-! ## §3. What is left -/

mutual

/-- **A node is left exactly when a tip of it is exported.** -/
theorem filterNode_eq_none_iff (address : String) :
    (t : Tree) → t.filterNode keep address = none ↔ exportedFrom keep address t.tips = []
  | .null | .bool _ | .num _ | .str _ => by
    rw [filterNode_of_scalar rfl, exportedFrom_scalar rfl]
    split
    · exact iff_of_false (fun h => nomatch h) (fun h => nomatch h)
    · exact iff_of_true rfl rfl
  | .arr items => by
    rw [tips, ← filterItems_eq_nil_iff address 0 items, filterNode]
    split
    · next hnil => exact iff_of_true rfl hnil
    · next hne => exact iff_of_false (fun h => nomatch h) hne
  | .obj fields => by
    rw [tips, ← filterFields_eq_nil_iff address fields, filterNode]
    split
    · next hnil => exact iff_of_true rfl hnil
    · next hne => exact iff_of_false (fun h => nomatch h) hne

theorem filterItems_eq_nil_iff (address : String) (index : Nat) :
    (items : List Tree) → filterItems keep address index items = [] ↔
      exportedFrom keep address (tipsOfItems index items) = []
  | [] => iff_of_true rfl rfl
  | item :: rest => by
    rw [tipsOfItems, exportedFrom_append, exportedFrom_under, List.append_eq_nil_iff,
      List.map_eq_nil_iff, ← filterNode_eq_none_iff _ item,
      ← filterItems_eq_nil_iff address (index + 1) rest, filterItems]
    show _ ↔ filterNode keep (placeStep "/" address (toString index)) item = none ∧ _
    split
    · next hkept => exact iff_of_false (fun h => nomatch h) fun h => nomatch hkept.symm.trans h.1
    · next hnone => exact (and_iff_right hnone).symm

theorem filterFields_eq_nil_iff (address : String) :
    (fields : List (String × Tree)) → filterFields keep address fields = [] ↔
      exportedFrom keep address (tipsOfFields fields) = []
  | [] => iff_of_true rfl rfl
  | (key, value) :: rest => by
    rw [tipsOfFields, exportedFrom_append, exportedFrom_under, List.append_eq_nil_iff,
      List.map_eq_nil_iff, ← filterNode_eq_none_iff _ value,
      ← filterFields_eq_nil_iff address rest, filterFields]
    show _ ↔ filterNode keep (placeStep "/" address key) value = none ∧ _
    split
    · next hkept => exact iff_of_false (fun h => nomatch h) fun h => nomatch hkept.symm.trans h.1
    · next hnone => exact (and_iff_right hnone).symm

end

theorem filterNode_scalar_eq_some_iff {address : String} {t left : Tree}
    (h : t.isContainer = false) :
    t.filterNode keep address = some left ↔ keep address = true ∧ left = t := by
  rw [filterNode_of_scalar h]
  split
  · next hkeep => exact Option.some_inj.trans (eq_comm.trans (and_iff_right hkeep).symm)
  · next hdrop => exact iff_of_false (fun h => nomatch h) fun h => hdrop h.1

theorem filterNode_arr_eq_some_iff {address : String} {items : List Tree} {left : Tree} :
    (Tree.arr items).filterNode keep address = some left ↔
      filterItems keep address 0 items ≠ [] ∧ left = .arr (filterItems keep address 0 items) := by
  rw [filterNode]
  split
  · next hnil => exact iff_of_false (fun h => nomatch h) fun h => h.1 hnil
  · next hne => exact Option.some_inj.trans (eq_comm.trans (and_iff_right hne).symm)

theorem filterNode_obj_eq_some_iff {address : String} {fields : List (String × Tree)}
    {left : Tree} :
    (Tree.obj fields).filterNode keep address = some left ↔
      filterFields keep address fields ≠ [] ∧ left = .obj (filterFields keep address fields) := by
  rw [filterNode]
  split
  · next hnil => exact iff_of_false (fun h => nomatch h) fun h => h.1 hnil
  · next hne => exact Option.some_inj.trans (eq_comm.trans (and_iff_right hne).symm)

/-! ## §4. The tips of what is left -/

theorem tips_of_filterNode_scalar {address : String} {t left : Tree}
    (hscalar : t.isContainer = false) (h : t.filterNode keep address = some left) :
    left.tips = (exportedFrom keep address t.tips).map
      (Tip.among ((exportedFrom keep address t.tips).map Tip.path)) := by
  obtain ⟨hkeep, rfl⟩ := (filterNode_scalar_eq_some_iff hscalar).1 h
  rw [exportedFrom_scalar hscalar, if_pos hkeep, tips_of_scalar hscalar]
  rfl

mutual

/-- **The tips of what is left of a node** are its exported tips, at their paths among these. -/
theorem tips_of_filterNode (address : String) :
    (t : Tree) → t.Distinct → ∀ left, t.filterNode keep address = some left →
      left.tips = (exportedFrom keep address t.tips).map
        (Tip.among ((exportedFrom keep address t.tips).map Tip.path))
  | .null, _, _, h | .bool _, _, _, h | .num _, _, _, h | .str _, _, _, h =>
    tips_of_filterNode_scalar rfl h
  | .arr items, hdistinct, left, h => by
    obtain ⟨-, rfl⟩ := filterNode_arr_eq_some_iff.1 h
    exact tips_of_filterItems address 0 _ items (distinct_arr_iff.1 hdistinct) fun _ _ => rfl
  | .obj fields, hdistinct, left, h => by
    obtain ⟨-, rfl⟩ := filterNode_obj_eq_some_iff.1 h
    obtain ⟨hkeys, hvalues⟩ := distinct_obj_iff.1 hdistinct
    exact tips_of_filterFields address _ fields hkeys hvalues fun _ _ => rfl

/-- The items that are left of the later items of an array stand behind those that are left of
    the earlier ones, which their rank counts. -/
theorem tips_of_filterItems (address : String) (index : Nat) (kept : List (List Step)) :
    (items : List Tree) → (∀ item ∈ items, item.Distinct) →
      (∀ position, index ≤ position → keptBelow (.item position) kept = keptBelow (.item position)
        ((exportedFrom keep address (tipsOfItems index items)).map Tip.path)) →
      tipsOfItems (rank kept index) (filterItems keep address index items)
        = (exportedFrom keep address (tipsOfItems index items)).map (Tip.among kept)
  | [], _, _ => rfl
  | item :: rest, hdistinct, hkept => by
    have hnone : filterNode keep (placeStep "/" address (toString index)) item = none ↔
        exportedFrom keep (placeStep "/" address (toString index)) item.tips = [] :=
      filterNode_eq_none_iff _ item
    rw [tipsOfItems, exportedFrom_append, exportedFrom_under, Step.text] at hkept ⊢
    -- all that is kept below this position is kept below this item
    have hitem : keptBelow (.item index) kept
        = (exportedFrom keep (placeStep "/" address (toString index)) item.tips).map Tip.path := by
      rw [hkept index (Nat.le_refl _)]
      apply keptBelow_under_append
      intro tip htip
      obtain ⟨position, others, hlt, hpath⟩ := exists_of_mem_tipsOfItems (List.mem_filter.1 htip).1
      refine ⟨.item position, others, ?_, hpath⟩
      rintro ⟨⟩
      omega
    -- the later positions lie below the later items, so the induction goes on with them
    have hrest := tips_of_filterItems address (index + 1) kept rest
      (fun other hother => hdistinct other (List.mem_cons_of_mem _ hother))
      (fun position hlt => by
        have hne : Step.item index ≠ .item position := by
          rintro ⟨⟩
          omega
        rw [hkept position (by omega), keptBelow_under_append_of_ne hne])
    rw [List.map_append, map_among_under_item, hitem, ← hrest, rank_succ, hitem, filterItems]
    split
    · next left hleft =>
      have hsome : exportedFrom keep (placeStep "/" address (toString index)) item.tips ≠ [] :=
        fun hnil => nomatch hleft.symm.trans (hnone.2 hnil)
      rw [if_neg (by simpa using hsome), tipsOfItems, tips_of_filterNode _ item
        (hdistinct item List.mem_cons_self) left hleft]
    · next hleft =>
      -- nothing is kept below this item, so the rank stays the same behind it
      rw [hnone.1 hleft]
      rfl

/-- With distinct keys, what is kept below a key is kept below the value of one field. -/
theorem tips_of_filterFields (address : String) (kept : List (List Step)) :
    (fields : List (String × Tree)) → (Entries.keys fields).Nodup →
      (∀ entry ∈ fields, entry.2.Distinct) →
      (∀ key ∈ Entries.keys fields, keptBelow (.key key) kept = keptBelow (.key key)
        ((exportedFrom keep address (tipsOfFields fields)).map Tip.path)) →
      tipsOfFields (filterFields keep address fields)
        = (exportedFrom keep address (tipsOfFields fields)).map (Tip.among kept)
  | [], _, _, _ => rfl
  | (key, value) :: rest, hkeys, hdistinct, hkept => by
    have hnone : filterNode keep (placeStep "/" address key) value = none ↔
        exportedFrom keep (placeStep "/" address key) value.tips = [] :=
      filterNode_eq_none_iff _ value
    obtain ⟨hkey, hkeys⟩ := List.nodup_cons.1 hkeys
    rw [tipsOfFields, exportedFrom_append, exportedFrom_under, Step.text] at hkept ⊢
    have hvalue : keptBelow (.key key) kept
        = (exportedFrom keep (placeStep "/" address key) value.tips).map Tip.path := by
      rw [hkept key List.mem_cons_self]
      apply keptBelow_under_append
      intro tip htip
      -- no later field has this key
      obtain ⟨other, hother, others, hpath⟩ :=
        exists_of_mem_tipsOfFields (List.mem_filter.1 htip).1
      refine ⟨.key other, others, ?_, hpath⟩
      rintro ⟨⟩
      exact hkey hother
    have hrest := tips_of_filterFields address kept rest hkeys
      (fun entry hentry => hdistinct entry (List.mem_cons_of_mem _ hentry))
      (fun other hother => by
        have hne : Step.key key ≠ .key other := by
          rintro ⟨⟩
          exact hkey hother
        rw [hkept other (List.mem_cons_of_mem _ hother), keptBelow_under_append_of_ne hne])
    rw [List.map_append, map_among_under_key, hvalue, ← hrest, filterFields]
    split
    · next left hleft =>
      rw [tipsOfFields, tips_of_filterNode _ value (hdistinct (key, value) List.mem_cons_self)
        left hleft]
    · next hleft =>
      rw [hnone.1 hleft]
      rfl

end

/-! ## §5. The shape of what is left -/

/-- A tree is left of another when some of the items of its arrays and of the fields of its
    objects are gone; the others stand in the same order, and fields under the same keys. -/
inductive Pruned : Tree → Tree → Prop where
  | scalar {t : Tree} (h : t.isContainer = false) : Pruned t t
  | arr {items some left : List Tree} (hsub : some.Sublist items)
    (hleft : List.Forall₂ Pruned some left) : Pruned (.arr items) (.arr left)
  | obj {fields some left : List (String × Tree)} (hsub : some.Sublist fields)
    (hkeys : Entries.keys left = Entries.keys some)
    (hleft : List.Forall₂ Pruned (some.map Prod.snd) (left.map Prod.snd)) :
    Pruned (.obj fields) (.obj left)

mutual

/-- **What is left of a node has its fields and items in their order.** -/
theorem pruned_of_filterNode (address : String) :
    (t : Tree) → ∀ left, t.filterNode keep address = some left → Pruned t left
  | .null, _, h | .bool _, _, h | .num _, _, h | .str _, _, h => by
    obtain ⟨-, rfl⟩ := (filterNode_scalar_eq_some_iff rfl).1 h
    exact .scalar rfl
  | .arr items, left, h => by
    obtain ⟨-, rfl⟩ := filterNode_arr_eq_some_iff.1 h
    obtain ⟨some, hsub, hleft⟩ := pruned_of_filterItems address 0 items
    exact .arr hsub hleft
  | .obj fields, left, h => by
    obtain ⟨-, rfl⟩ := filterNode_obj_eq_some_iff.1 h
    obtain ⟨some, hsub, hkeys, hleft⟩ := pruned_of_filterFields address fields
    exact .obj hsub hkeys hleft

theorem pruned_of_filterItems (address : String) (index : Nat) :
    (items : List Tree) → ∃ some : List Tree, some.Sublist items ∧
      List.Forall₂ Pruned some (filterItems keep address index items)
  | [] => ⟨[], List.nil_sublist [], .nil⟩
  | item :: rest => by
    obtain ⟨some, hsub, hrest⟩ := pruned_of_filterItems address (index + 1) rest
    rw [filterItems]
    split
    · next left hleft =>
      have hitem : Pruned item left := pruned_of_filterNode _ item left hleft
      exact ⟨item :: some, hsub.cons_cons item, .cons hitem hrest⟩
    · exact ⟨some, hsub.cons item, hrest⟩

theorem pruned_of_filterFields (address : String) :
    (fields : List (String × Tree)) → ∃ some : List (String × Tree), some.Sublist fields ∧
      Entries.keys (filterFields keep address fields) = Entries.keys some ∧
      List.Forall₂ Pruned (some.map Prod.snd) ((filterFields keep address fields).map Prod.snd)
  | [] => ⟨[], List.nil_sublist [], rfl, .nil⟩
  | (key, value) :: rest => by
    obtain ⟨some, hsub, hkeys, hrest⟩ := pruned_of_filterFields address rest
    rw [filterFields]
    split
    · next left hleft =>
      have hvalue : Pruned value left := pruned_of_filterNode _ value left hleft
      exact ⟨(key, value) :: some, hsub.cons_cons _, congrArg (key :: ·) hkeys,
        .cons hvalue hrest⟩
    · exact ⟨some, hsub.cons _, hkeys, hrest⟩

end

/-- Whatever has `p` has `q` once it is pruned, as long as something is left of it. -/
structure PrunesTo (keep : String → Bool) (p q : Tree → Prop) : Prop where
  scalar : ∀ t : Tree, t.isContainer = false → p t → q t
  arr : ∀ address items, p (.arr items) → filterItems keep address 0 items ≠ [] →
    q (.arr (filterItems keep address 0 items))
  obj : ∀ address fields, p (.obj fields) → filterFields keep address fields ≠ [] →
    q (.obj (filterFields keep address fields))

section Throughout

variable {p q : Tree → Prop}

mutual

/-- **What holds throughout a tree is pruned with it.** -/
theorem throughout_of_filterNode (hpq : PrunesTo keep p q) (address : String) :
    (t : Tree) → t.Throughout p → ∀ left, t.filterNode keep address = some left →
      left.Throughout q
  | .null, ht, _, h | .bool _, ht, _, h | .num _, ht, _, h | .str _, ht, _, h => by
    obtain ⟨-, rfl⟩ := (filterNode_scalar_eq_some_iff rfl).1 h
    exact (throughout_scalar_iff rfl).2 (hpq.scalar _ rfl ((throughout_scalar_iff rfl).1 ht))
  | .arr items, ht, left, h => by
    obtain ⟨hne, rfl⟩ := filterNode_arr_eq_some_iff.1 h
    obtain ⟨hself, hitems⟩ := throughout_arr_iff.1 ht
    exact throughout_arr_iff.2 ⟨hpq.arr address items hself hne,
      throughout_of_filterItems hpq address 0 items hitems⟩
  | .obj fields, ht, left, h => by
    obtain ⟨hne, rfl⟩ := filterNode_obj_eq_some_iff.1 h
    obtain ⟨hself, hvalues⟩ := throughout_obj_iff.1 ht
    exact throughout_obj_iff.2 ⟨hpq.obj address fields hself hne,
      throughout_of_filterFields hpq address fields hvalues⟩

theorem throughout_of_filterItems (hpq : PrunesTo keep p q) (address : String) (index : Nat) :
    (items : List Tree) → (∀ item ∈ items, item.Throughout p) →
      ∀ left ∈ filterItems keep address index items, left.Throughout q
  | [], _, _, h => nomatch h
  | item :: rest, hitems, left, h => by
    obtain ⟨hitem, hrest⟩ := List.forall_mem_cons.1 hitems
    rw [filterItems] at h
    split at h
    · next first hfirst =>
      rcases List.mem_cons.1 h with rfl | h
      · exact throughout_of_filterNode hpq _ item hitem left hfirst
      · exact throughout_of_filterItems hpq address (index + 1) rest hrest left h
    · exact throughout_of_filterItems hpq address (index + 1) rest hrest left h

theorem throughout_of_filterFields (hpq : PrunesTo keep p q) (address : String) :
    (fields : List (String × Tree)) → (∀ entry ∈ fields, entry.2.Throughout p) →
      ∀ entry ∈ filterFields keep address fields, entry.2.Throughout q
  | [], _, _, h => nomatch h
  | (key, value) :: rest, hfields, entry, h => by
    obtain ⟨hvalue, hrest⟩ := List.forall_mem_cons.1 hfields
    rw [filterFields] at h
    split at h
    · next left hleft =>
      rcases List.mem_cons.1 h with rfl | h
      · exact throughout_of_filterNode hpq _ value hvalue left hleft
      · exact throughout_of_filterFields hpq address rest hrest entry h
    · exact throughout_of_filterFields hpq address rest hrest entry h

end

end Throughout

theorem prunesTo_full : PrunesTo keep (fun _ => True) fun s => s.isEmptyContainer = false where
  scalar t hscalar _ := by
    cases t with
    | arr items => cases hscalar
    | obj fields => cases hscalar
    | null | bool | num | str => rfl
  arr address items _ hne := by
    obtain ⟨first, rest, hkept⟩ := List.exists_cons_of_ne_nil hne
    rw [hkept]
    rfl
  obj address fields _ hne := by
    obtain ⟨first, rest, hkept⟩ := List.exists_cons_of_ne_nil hne
    rw [hkept]
    rfl

theorem keys_filterFields_sublist (address : String) (fields : List (String × Tree)) :
    (Entries.keys (filterFields keep address fields)).Sublist (Entries.keys fields) := by
  obtain ⟨some, hsub, hkeys, -⟩ : ∃ some : List (String × Tree), some.Sublist fields ∧
      Entries.keys (filterFields keep address fields) = Entries.keys some ∧ _ :=
    pruned_of_filterFields address fields
  rw [hkeys]
  exact hsub.map Prod.fst

theorem prunesTo_distinct :
    PrunesTo keep (fun s => s.ownKeys.Nodup) fun s => s.ownKeys.Nodup where
  scalar _ _ hself := hself
  arr _ _ _ _ := List.nodup_nil
  obj address fields hself _ := hself.sublist (keys_filterFields_sublist address fields)

/-! ## §6. Exports -/

/-- What is left of an object is an object, also when nothing is left of it. -/
theorem filterLeaves_obj (fields : List (String × Tree)) :
    (Tree.obj fields).filterLeaves keep = .obj (filterFields keep "" fields) := by
  unfold filterLeaves
  cases h : (Tree.obj fields).filterNode keep "" with
  | none =>
    rw [filterNode_eq_none_iff, tips, ← filterFields_eq_nil_iff] at h
    rw [h]
  | some left =>
    obtain ⟨-, rfl⟩ := filterNode_obj_eq_some_iff.1 h
    rfl

theorem pruned_filterLeaves (fields : List (String × Tree)) :
    Pruned (.obj fields) ((Tree.obj fields).filterLeaves keep) := by
  obtain ⟨some, hsub, hkeys, hleft⟩ := pruned_of_filterFields "" fields
  rw [filterLeaves_obj]
  exact .obj hsub hkeys hleft

/-- **No container inside the exported part is empty.** -/
theorem full_filterLeaves (fields : List (String × Tree)) :
    ∀ s ∈ ((Tree.obj fields).filterLeaves keep).inner, s.isEmptyContainer = false := by
  rw [filterLeaves_obj]
  have hany : ∀ entry ∈ fields, entry.2.Throughout fun _ => True := fun _ _ _ _ => True.intro
  exact forall_inner_obj_iff.2 (throughout_of_filterFields prunesTo_full "" fields hany)

/-- **The exported part of a tree with distinct keys has distinct keys.** -/
theorem distinct_filterLeaves {fields : List (String × Tree)} (h : (Tree.obj fields).Distinct) :
    ((Tree.obj fields).filterLeaves keep).Distinct := by
  obtain ⟨hkeys, hvalues⟩ := distinct_obj_iff.1 h
  rw [filterLeaves_obj]
  exact distinct_obj_iff.2 ⟨hkeys.sublist (keys_filterFields_sublist "" fields),
    throughout_of_filterFields prunesTo_distinct "" fields hvalues⟩

/-- The tips of a tree whose addresses are kept, an address being the keys and positions of a
    tip with slashes between them. -/
def exported (keep : String → Bool) (t : Tree) : List Tip :=
  t.tips.filter fun tip => keep ("/".intercalate (tip.path.map Step.text))

/-- Below the top no address is empty, unless the first key is. -/
theorem exported_obj {fields : List (String × Tree)} (h : "" ∉ Entries.keys fields) :
    exported keep (.obj fields) = exportedFrom keep "" (tipsOfFields fields) := by
  apply List.filter_congr
  intro tip htip
  obtain ⟨key, hkey, rest, hpath⟩ := exists_of_mem_tipsOfFields htip
  have hne : key ≠ "" := fun hempty => h (hempty ▸ hkey)
  rw [hpath]
  exact congrArg keep (placeText_eq_intercalate "/" hne (rest.map Step.text)).symm

/-- **What an export keeps.**  The tips of the exported part of an object are the exported tips
    of the object in document order, each with its value and the keys on its path, while every
    position on its path is now the number of the items in front of it below which something is
    exported.  The fields of the objects, and the items of the arrays, that are left stand in
    their order; and no array or object inside the exported part is empty. -/
theorem export_keeps (keep : String → Bool) {fields : List (String × Tree)}
    (hdistinct : (Tree.obj fields).Distinct) (hkeys : "" ∉ Entries.keys fields) :
    ((Tree.obj fields).filterLeaves keep).tips
        = (exported keep (.obj fields)).map
            (Tip.among ((exported keep (.obj fields)).map Tip.path)) ∧
      Pruned (.obj fields) ((Tree.obj fields).filterLeaves keep) ∧
      ∀ s ∈ ((Tree.obj fields).filterLeaves keep).inner, s.isEmptyContainer = false := by
  obtain ⟨hfields, hvalues⟩ := distinct_obj_iff.1 hdistinct
  refine ⟨?_, pruned_filterLeaves fields, full_filterLeaves fields⟩
  rw [filterLeaves_obj, exported_obj hkeys]
  exact tips_of_filterFields "" _ fields hfields hvalues fun _ _ => rfl

/-- An empty key below the top, a `null`, and arrays that lose items. -/
def shades : Tree :=
  .obj [("color", .arr [.str "red", .obj [("", .null), ("dark", .arr [.ofInt 7])], .arr []]),
    ("size", .obj [("m", .arr [.ofInt 1, .ofInt 2])])]

/-- The address of a container keeps nothing. -/
def keepsFew (address : String) : Bool := address ∈ ["color", "color/1/", "size/m/1"]

/-- Two leaves are left, and both move to the front of their arrays. -/
theorem export_keeps_shades :
    shades.Distinct ∧ "" ∉ shades.ownKeys ∧
      exported keepsFew shades = [⟨[.key "color", .item 1, .key ""], .null⟩,
        ⟨[.key "size", .key "m", .item 1], .ofInt 2⟩] ∧
      (shades.filterLeaves keepsFew).tips = [⟨[.key "color", .item 0, .key ""], .null⟩,
        ⟨[.key "size", .key "m", .item 0], .ofInt 2⟩] ∧
      Pruned shades (shades.filterLeaves keepsFew) ∧
      ∀ s ∈ (shades.filterLeaves keepsFew).inner, s.isEmptyContainer = false := by
  have hdistinct : shades.Distinct := by decide +kernel
  have hkeys : "" ∉ shades.ownKeys := by decide +kernel
  obtain ⟨htips, hpruned, hfull⟩ := export_keeps keepsFew hdistinct hkeys
  have hmoved : (shades.filterLeaves keepsFew).tips = (exported keepsFew shades).map
      (Tip.among ((exported keepsFew shades).map Tip.path)) := htips
  have hexported : exported keepsFew shades = [⟨[.key "color", .item 1, .key ""], .null⟩,
      ⟨[.key "size", .key "m", .item 1], .ofInt 2⟩] := by decide +kernel
  refine ⟨hdistinct, hkeys, hexported, ?_, hpruned, hfull⟩
  rw [hmoved, hexported]
  decide +kernel

end

end DesignTokens.Tree
