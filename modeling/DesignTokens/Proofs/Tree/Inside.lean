/-
  DesignTokens.Proofs.Tree.Inside — what stands inside a tree.

  `inner` lists the trees strictly inside a tree.  What is asked of a tree and of everything
  inside it is taken apart with the tree: an array has it when its items do, an object when the
  values of its fields do, each beside what is asked of the container alone.

  Objects are maps, though their type is that of lists of entries.  A tree in which no object
  writes a key twice is one that maps can build.

  Main facts:
    * `throughout_arr_iff`, `throughout_obj_iff` — what is asked of a whole tree, child by child.
    * `distinct_arr_iff`, `distinct_obj_iff` — distinct keys, child by child.
-/
import DesignTokens.Tree.Basic

namespace DesignTokens.Tree

/-! ## §1. Inside -/

mutual

/-- The trees strictly inside a tree, each in front of those inside it. -/
def inner : Tree → List Tree
  | .arr items => innerOfItems items
  | .obj fields => innerOfFields fields
  | .null | .bool _ | .num _ | .str _ => []

/-- The items of an array and the trees inside them. -/
def innerOfItems : List Tree → List Tree
  | [] => []
  | item :: rest => item :: item.inner ++ innerOfItems rest

/-- The values of fields and the trees inside them. -/
def innerOfFields : List (String × Tree) → List Tree
  | [] => []
  | (_, value) :: rest => value :: value.inner ++ innerOfFields rest

end

/-- The tree and every tree inside it have a property. -/
def Throughout (p : Tree → Prop) (t : Tree) : Prop := ∀ s ∈ t :: t.inner, p s

instance {p : Tree → Prop} [DecidablePred p] (t : Tree) : Decidable (t.Throughout p) :=
  inferInstanceAs (Decidable (∀ s ∈ t :: t.inner, p s))

section
variable {p : Tree → Prop}

theorem throughout_iff {t : Tree} : t.Throughout p ↔ p t ∧ ∀ s ∈ t.inner, p s :=
  List.forall_mem_cons

theorem forall_inner_arr_iff {items : List Tree} :
    (∀ s ∈ (Tree.arr items).inner, p s) ↔ ∀ item ∈ items, item.Throughout p := by
  show (∀ s ∈ innerOfItems items, p s) ↔ _
  induction items with
  | nil => exact iff_of_true (fun s hs => nomatch hs) fun item hitem => nomatch hitem
  | cons item rest ih =>
    rw [innerOfItems, List.forall_mem_append, ih]
    exact (List.forall_mem_cons (p := Throughout p)).symm

theorem forall_inner_obj_iff {fields : List (String × Tree)} :
    (∀ s ∈ (Tree.obj fields).inner, p s) ↔ ∀ entry ∈ fields, entry.2.Throughout p := by
  show (∀ s ∈ innerOfFields fields, p s) ↔ _
  induction fields with
  | nil => exact iff_of_true (fun s hs => nomatch hs) fun entry hentry => nomatch hentry
  | cons entry rest ih =>
    rw [innerOfFields, List.forall_mem_append, ih]
    exact (List.forall_mem_cons (p := fun entry : String × Tree => entry.2.Throughout p)).symm

/-- An array and what is inside it, item by item. -/
theorem throughout_arr_iff {items : List Tree} :
    (Tree.arr items).Throughout p ↔ p (.arr items) ∧ ∀ item ∈ items, item.Throughout p := by
  rw [throughout_iff, forall_inner_arr_iff]

/-- An object and what is inside it, field by field. -/
theorem throughout_obj_iff {fields : List (String × Tree)} :
    (Tree.obj fields).Throughout p ↔ p (.obj fields) ∧ ∀ entry ∈ fields, entry.2.Throughout p := by
  rw [throughout_iff, forall_inner_obj_iff]

/-- Nothing is inside a scalar. -/
theorem throughout_scalar_iff {t : Tree} (h : t.isContainer = false) : t.Throughout p ↔ p t := by
  have hinner : t.inner = [] := by
    cases t with
    | arr items => cases h
    | obj fields => cases h
    | null | bool | num | str => rfl
  rw [throughout_iff, hinner]
  exact and_iff_left fun s hs => nomatch hs

end

/-! ## §2. Distinct keys -/

/-- The keys of an object; other trees have none. -/
def ownKeys : Tree → List String
  | .obj fields => Entries.keys fields
  | _ => []

/-- No object of the tree writes a key twice. -/
def Distinct (t : Tree) : Prop := t.Throughout fun s => s.ownKeys.Nodup

instance (t : Tree) : Decidable t.Distinct :=
  inferInstanceAs (Decidable (t.Throughout fun s => s.ownKeys.Nodup))

theorem distinct_arr_iff {items : List Tree} :
    (Tree.arr items).Distinct ↔ ∀ item ∈ items, item.Distinct := by
  rw [Distinct, throughout_arr_iff]
  exact and_iff_right List.nodup_nil

theorem distinct_obj_iff {fields : List (String × Tree)} :
    (Tree.obj fields).Distinct ↔
      (Entries.keys fields).Nodup ∧ ∀ entry ∈ fields, entry.2.Distinct :=
  throughout_obj_iff

theorem distinct_of_scalar {t : Tree} (h : t.isContainer = false) : t.Distinct := by
  rw [Distinct, throughout_scalar_iff h]
  cases t with
  | obj fields => cases h
  | arr | null | bool | num | str => exact List.nodup_nil

end DesignTokens.Tree
