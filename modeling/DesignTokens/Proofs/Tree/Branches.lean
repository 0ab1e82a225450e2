/-
  DesignTokens.Proofs.Tree.Branches — trees by what they hold.

  An object holds trees under its keys, and so does an array, whose items have the numerals of
  their positions for keys.  What is said of the leaves of a tree concerns these branches only, so
  arrays and objects need not be told apart.

  Main facts:
    * `branch_induction` — what holds of scalars and of whatever holds trees with it.
    * `leaves_of_container` — the leaves of a container, branch by branch.
    * `exists_of_mem_leavesOfFields` — the branch that a leaf lies below.
    * `nodup_keys_branches` — no two branches have one key.
-/
import DesignTokens.Proofs.Edit.Position
import DesignTokens.Proofs.Tree.Inside
import DesignTokens.Tree.Leaves

namespace DesignTokens.Tree

open Edit (eq_of_toString_eq)

/-! ## §1. Branches -/

/-- Trees under the numerals of their positions, of which `index` is the first. -/
def numbered (index : Nat) : List Tree → List (String × Tree)
  | [] => []
  | item :: rest => (toString index, item) :: numbered (index + 1) rest

/-- The trees that a container holds, under their keys. -/
def branches : Tree → List (String × Tree)
  | .arr items => numbered 0 items
  | .obj fields => fields
  | .null | .bool _ | .num _ | .str _ => []

theorem exists_of_mem_numbered {index : Nat} {items : List Tree} {branch : String × Tree}
    (h : branch ∈ numbered index items) :
    ∃ offset, branch.1 = toString (index + offset) ∧ items[offset]? = some branch.2 := by
  induction items generalizing index with
  | nil => cases h
  | cons item rest ih =>
    rw [numbered] at h
    rcases List.mem_cons.1 h with hhead | hrest
    · rw [hhead]
      exact ⟨0, rfl, rfl⟩
    · obtain ⟨offset, hkey, hitem⟩ := ih hrest
      refine ⟨offset + 1, ?_, hitem⟩
      rw [hkey, Nat.add_assoc, Nat.add_comm 1]

/-- A branch is smaller than its tree. -/
theorem sizeOf_lt_of_mem_branches {t : Tree} {branch : String × Tree} (h : branch ∈ t.branches) :
    sizeOf branch.2 < sizeOf t := by
  cases t with
  | null | bool | num | str => cases h
  | arr items =>
    obtain ⟨offset, -, hitem⟩ := exists_of_mem_numbered h
    have hlist := List.sizeOf_lt_of_mem (List.mem_of_getElem? hitem)
    rw [arr.sizeOf_spec]
    omega
  | obj fields =>
    have hlist : sizeOf branch < sizeOf fields := List.sizeOf_lt_of_mem h
    obtain ⟨key, value⟩ := branch
    rw [Prod.mk.sizeOf_spec] at hlist
    rw [obj.sizeOf_spec]
    show sizeOf value < _
    omega

/-- **Induction over trees**: a property of scalars that a container has with its branches is one
    of all trees. -/
@[elab_as_elim]
theorem branch_induction {p : Tree → Prop} (scalar : ∀ t, t.isContainer = false → p t)
    (container : ∀ t, t.isContainer = true → (∀ branch ∈ t.branches, p branch.2) → p t)
    (t : Tree) : p t := by
  cases hcontainer : t.isContainer with
  | false => exact scalar t hcontainer
  | true =>
    refine container t hcontainer fun branch hbranch => ?_
    exact branch_induction scalar container branch.2
termination_by sizeOf t
decreasing_by exact sizeOf_lt_of_mem_branches hbranch

/-! ## §2. Leaves and keys -/

theorem leavesOfItems_eq (index : Nat) (items : List Tree) :
    leavesOfItems index items = leavesOfFields (numbered index items) := by
  induction items generalizing index with
  | nil => rw [leavesOfItems, numbered, leavesOfFields]
  | cons item rest ih => rw [leavesOfItems, numbered, leavesOfFields, ih]

/-- **The leaves of a container** are those of its branches. -/
theorem leaves_of_container {t : Tree} (h : t.isContainer = true) :
    t.leaves = leavesOfFields t.branches := by
  cases t with
  | null | bool | num | str => cases h
  | arr items => rw [leaves, leavesOfItems_eq, branches]
  | obj fields => rw [leaves, branches]

theorem nodup_keys_numbered (index : Nat) (items : List Tree) :
    (Entries.keys (numbered index items)).Nodup := by
  induction items generalizing index with
  | nil => exact List.nodup_nil
  | cons item rest ih =>
    refine List.nodup_cons.2 ⟨?_, ih (index + 1)⟩
    intro hmem
    obtain ⟨branch, hbranch, hkey⟩ := List.mem_map.1 hmem
    obtain ⟨offset, hnumeral, -⟩ := exists_of_mem_numbered hbranch
    have hposition : index + 1 + offset = index := eq_of_toString_eq (hnumeral.symm.trans hkey)
    omega

/-- A leaf of a container lies below a branch, and its place begins with the key. -/
theorem exists_of_mem_leavesOfFields {branches : List (String × Tree)} {leaf : Leaf}
    (h : leaf ∈ leavesOfFields branches) :
    ∃ branch ∈ branches, ∃ below ∈ branch.2.leaves, below.under branch.1 = leaf := by
  induction branches with
  | nil => cases h
  | cons branch rest ih =>
    obtain ⟨key, value⟩ := branch
    rw [leavesOfFields] at h
    rcases List.mem_append.1 h with hvalue | hrest
    · obtain ⟨below, hbelow, heq⟩ := List.mem_map.1 hvalue
      exact ⟨(key, value), List.mem_cons_self, below, hbelow, heq⟩
    · obtain ⟨other, hother, below, hbelow, heq⟩ := ih hrest
      exact ⟨other, List.mem_cons_of_mem _ hother, below, hbelow, heq⟩

/-- **No two branches have one key.** -/
theorem nodup_keys_branches {t : Tree} (h : t.Distinct) : (Entries.keys t.branches).Nodup := by
  cases t with
  | null | bool | num | str => exact List.nodup_nil
  | arr items => exact nodup_keys_numbered 0 items
  | obj fields => exact (distinct_obj_iff.1 h).1

theorem distinct_of_mem_branches {t : Tree} (h : t.Distinct) :
    ∀ branch ∈ t.branches, branch.2.Distinct := by
  intro branch hbranch
  cases t with
  | null | bool | num | str => cases hbranch
  | arr items =>
    obtain ⟨offset, -, hitem⟩ := exists_of_mem_numbered hbranch
    exact distinct_arr_iff.1 h branch.2 (List.mem_of_getElem? hitem)
  | obj fields => exact (distinct_obj_iff.1 h).2 branch hbranch

end DesignTokens.Tree
