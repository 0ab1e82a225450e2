/-
  DesignTokens.Tree.Leaves — the scalars of a tree with their places.

  A leaf is a value that is no container; `null` is one, an empty array or object is none.  Its
  place is the list of keys that leads to it, a position of an array being its decimal numeral.
  Leaves come in document order.

  Main facts:
    * `leaves_of_scalar` — a scalar is its own leaf, at the empty place.
    * `not_isContainer_of_mem_leaves` — leaves are scalars.
-/
import DesignTokens.Tree.Basic

namespace DesignTokens.Tree

/-- A scalar with its place in a tree. -/
structure Leaf where
  place : List String
  value : Tree
deriving Repr, DecidableEq

/-- The leaf of a child, seen from its parent. -/
def Leaf.under (key : String) (leaf : Leaf) : Leaf := { leaf with place := key :: leaf.place }

mutual

/-- The leaves of a tree in document order. -/
def leaves : Tree → List Leaf
  | .arr items => leavesOfItems 0 items
  | .obj fields => leavesOfFields fields
  | .null => [⟨[], .null⟩]
  | .bool b => [⟨[], .bool b⟩]
  | .num n => [⟨[], .num n⟩]
  | .str s => [⟨[], .str s⟩]

/-- The leaves of the items of an array, the first of which has the position `index`. -/
def leavesOfItems (index : Nat) : List Tree → List Leaf
  | [] => []
  | item :: rest => item.leaves.map (.under (toString index)) ++ leavesOfItems (index + 1) rest

/-- The leaves of the fields of an object. -/
def leavesOfFields : List (String × Tree) → List Leaf
  | [] => []
  | (key, value) :: rest => value.leaves.map (.under key) ++ leavesOfFields rest

end

/-- The text of a place one key further down.  No separator is put behind an empty text. -/
def placeStep (separator : String) (text key : String) : String :=
  if text.isEmpty then key else text ++ separator ++ key

/-- The text of a place: its keys with a separator between them. -/
def placeText (separator : String) (place : List String) : String :=
  place.foldl (placeStep separator) ""

/-- A scalar is its own leaf. -/
theorem leaves_of_scalar {t : Tree} (h : t.isContainer = false) : t.leaves = [⟨[], t⟩] := by
  cases t <;> first | rfl | simp [isContainer] at h

mutual

/-- Leaves are scalars. -/
theorem not_isContainer_of_mem_leaves :
    (t : Tree) → ∀ leaf ∈ t.leaves, leaf.value.isContainer = false
  | .null | .bool _ | .num _ | .str _ => by simp [leaves, isContainer]
  | .arr items => by simpa [leaves] using not_isContainer_of_mem_items 0 items
  | .obj fields => by simpa [leaves] using not_isContainer_of_mem_fields fields

theorem not_isContainer_of_mem_items (index : Nat) :
    (items : List Tree) → ∀ leaf ∈ leavesOfItems index items, leaf.value.isContainer = false
  | [] => by simp [leavesOfItems]
  | item :: rest => by
    intro leaf hleaf
    rw [leavesOfItems, List.mem_append, List.mem_map] at hleaf
    rcases hleaf with ⟨l, hl, rfl⟩ | hleaf
    · exact not_isContainer_of_mem_leaves item l hl
    · exact not_isContainer_of_mem_items (index + 1) rest leaf hleaf

theorem not_isContainer_of_mem_fields :
    (fields : List (String × Tree)) →
      ∀ leaf ∈ leavesOfFields fields, leaf.value.isContainer = false
  | [] => by simp [leavesOfFields]
  | (key, value) :: rest => by
    intro leaf hleaf
    rw [leavesOfFields, List.mem_append, List.mem_map] at hleaf
    rcases hleaf with ⟨l, hl, rfl⟩ | hleaf
    · exact not_isContainer_of_mem_leaves value l hl
    · exact not_isContainer_of_mem_fields rest leaf hleaf

end

end DesignTokens.Tree
