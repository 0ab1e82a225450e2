/-
  DesignTokens.Proofs.Tree.Places — where the leaves of a tree lie.

  A leaf carries the keys that lead to it, so walking along these keys has to end at the leaf, and
  no two leaves carry the same keys.  Both need the keys of every object to be distinct, or the
  walk would stop at the first of two equal keys; and the walk needs positions that arrays can
  count, while leaves are listed whatever their position is.

  A place is taken apart key by key, and so a walk is proved on along the place.  The places of all
  leaves are told apart along the tree instead.

  Main facts:
    * `exists_child_of_mem_leaves` — the first key of a place leads to the child that holds the
      leaf.
    * `at?_of_mem_leaves` — the keys of a leaf lead to its value.
    * `nodup_places` — no two leaves have the same place.
-/
import DesignTokens.Proofs.Edit.Place
import DesignTokens.Proofs.Tree.Branches
import Mathlib.Data.List.Nodup

namespace DesignTokens.Tree

open Edit (positionBound)

/-! ## §1. Sizes -/

/-- The number of items of an array; other trees have none. -/
def itemCount : Tree → Nat
  | .arr items => items.length
  | _ => 0

/-- No array of the tree has more items than there are positions. -/
def Sized (t : Tree) : Prop := t.Throughout fun s => s.itemCount ≤ positionBound

instance (t : Tree) : Decidable t.Sized :=
  inferInstanceAs (Decidable (t.Throughout fun s => s.itemCount ≤ positionBound))

/-- What holds throughout a tree holds throughout each child. -/
theorem throughout_child? {p : Tree → Prop} {t child : Tree} {key : String} (h : t.Throughout p)
    (hchild : t.child? key = some child) : child.Throughout p := by
  cases t with
  | null | bool | num | str => cases hchild
  | obj fields => exact (throughout_obj_iff.1 h).2 _ (Entries.mem_of_get? hchild)
  | arr items =>
    obtain ⟨index, -, -, hitem⟩ := child?_arr_eq_some_iff.1 hchild
    exact (throughout_arr_iff.1 h).2 _ (List.mem_of_getElem? hitem)

/-! ## §2. Leaves of children -/

variable {t value : Tree} {key : String} {rest : List String}

/-- A leaf without keys is the whole tree. -/
theorem eq_of_mem_leaves_nil (h : ⟨[], value⟩ ∈ t.leaves) : t = value := by
  cases hcontainer : t.isContainer with
  | false =>
    rw [leaves_of_scalar hcontainer] at h
    exact (congrArg Leaf.value (List.mem_singleton.1 h)).symm
  | true =>
    rw [leaves_of_container hcontainer] at h
    obtain ⟨_, _, _, _, heq⟩ := exists_of_mem_leavesOfFields h
    exact absurd (congrArg Leaf.place heq) (List.cons_ne_nil _ _)

/-- A branch is what lies under its key. -/
theorem child?_of_mem_branches (hdistinct : t.Distinct) (hsized : t.Sized)
    {branch : String × Tree} (h : branch ∈ t.branches) : t.child? branch.1 = some branch.2 := by
  cases t with
  | null | bool | num | str => cases h
  | arr items =>
    obtain ⟨index, hkey, hitem⟩ := exists_of_mem_numbered h
    have hinside : index < items.length := (List.getElem?_eq_some_iff.1 hitem).1
    have hcount : items.length ≤ positionBound := (throughout_arr_iff.1 hsized).1
    refine child?_arr_eq_some_iff.2 ⟨index, ?_, by omega, hitem⟩
    rw [hkey, Nat.zero_add]
  | obj fields => exact Entries.get?_of_mem (distinct_obj_iff.1 hdistinct).1 h

/-- The key is one of an object, or the numeral of a position; and below it lies the rest. -/
theorem exists_child_of_mem_leaves (hdistinct : t.Distinct) (hsized : t.Sized)
    (h : ⟨key :: rest, value⟩ ∈ t.leaves) :
    ∃ child, t.child? key = some child ∧ ⟨rest, value⟩ ∈ child.leaves := by
  cases hcontainer : t.isContainer with
  | false =>
    rw [leaves_of_scalar hcontainer] at h
    have hplace : key :: rest = [] := congrArg Leaf.place (List.mem_singleton.1 h)
    exact absurd hplace (List.cons_ne_nil _ _)
  | true =>
    rw [leaves_of_container hcontainer] at h
    obtain ⟨branch, hbranch, ⟨place, found⟩, hbelow, heq⟩ := exists_of_mem_leavesOfFields h
    obtain ⟨hplace, hfound⟩ := Leaf.mk.inj heq
    obtain ⟨hkey, hrest⟩ := List.cons.inj hplace
    subst hkey hrest hfound
    exact ⟨branch.2, child?_of_mem_branches hdistinct hsized hbranch, hbelow⟩

/-- **The keys of a leaf lead to its value.** -/
theorem at?_of_mem_leaves {place : List String} (hdistinct : t.Distinct) (hsized : t.Sized)
    (h : ⟨place, value⟩ ∈ t.leaves) : t.at? place = some value := by
  induction place generalizing t with
  | nil => rw [eq_of_mem_leaves_nil h, at?_nil]
  | cons key rest ih =>
    obtain ⟨child, hchild, hleaf⟩ := exists_child_of_mem_leaves hdistinct hsized h
    rw [at?_cons, hchild]
    exact ih (throughout_child? hdistinct hchild) (throughout_child? hsized hchild) hleaf

/-! ## §3. Distinct places -/

/-- The places of the leaves of a tree, in document order. -/
def places (t : Tree) : List (List String) := t.leaves.map Leaf.place

theorem map_place_under (key : String) (leaves : List Leaf) :
    (leaves.map (Leaf.under key)).map Leaf.place = (leaves.map Leaf.place).map (key :: ·) := by
  rw [List.map_map, List.map_map]
  rfl

/-- Places under one key, and others under other keys. -/
theorem nodup_under_append {key : String} {below : List (List String)} {others : List Leaf}
    (hbelow : below.Nodup) (hothers : (others.map Leaf.place).Nodup)
    (h : ∀ leaf ∈ others, ∃ other rest, other ≠ key ∧ leaf.place = other :: rest) :
    (below.map (key :: ·) ++ others.map Leaf.place).Nodup := by
  rw [List.nodup_append]
  refine ⟨?_, hothers, ?_⟩
  · exact hbelow.map fun front back heq => (List.cons.inj heq).2
  · intro place hplace other hother heq
    obtain ⟨rest, -, hrest⟩ := List.mem_map.1 hplace
    obtain ⟨leaf, hleaf, hother⟩ := List.mem_map.1 hother
    obtain ⟨head, tail, hne, hhead⟩ := h leaf hleaf
    apply hne
    have hcons : head :: tail = key :: rest := by
      rw [← hhead, hother, ← heq, hrest]
    exact (List.cons.inj hcons).1

/-- The places below branches with distinct keys. -/
theorem nodup_placesOfFields {branches : List (String × Tree)}
    (hkeys : (Entries.keys branches).Nodup)
    (hplaces : ∀ branch ∈ branches, branch.2.places.Nodup) :
    ((leavesOfFields branches).map Leaf.place).Nodup := by
  induction branches with
  | nil => exact List.nodup_nil
  | cons branch rest ih =>
    obtain ⟨key, value⟩ := branch
    obtain ⟨hvalue, hrest⟩ := List.forall_mem_cons.1 hplaces
    obtain ⟨hkey, hothers⟩ := List.nodup_cons.1 hkeys
    rw [leavesOfFields, List.map_append, map_place_under]
    refine nodup_under_append hvalue (ih hothers hrest) ?_
    intro leaf hleaf
    obtain ⟨other, hother, below, -, heq⟩ := exists_of_mem_leavesOfFields hleaf
    refine ⟨other.1, below.place, ?_, by rw [← heq]; rfl⟩
    intro hsame
    apply hkey
    rw [← hsame]
    exact List.mem_map.2 ⟨other, hother, rfl⟩

/-- **No two leaves have the same place.** -/
theorem nodup_places (t : Tree) (h : t.Distinct) : t.places.Nodup := by
  unfold places
  induction t using branch_induction with
  | scalar t hscalar =>
    rw [leaves_of_scalar hscalar]
    exact List.nodup_singleton _
  | container t hcontainer ih =>
    rw [leaves_of_container hcontainer]
    refine nodup_placesOfFields (nodup_keys_branches h) ?_
    intro branch hbranch
    exact ih branch hbranch (distinct_of_mem_branches h branch hbranch)

end DesignTokens.Tree
