/-
  DesignTokens.Proofs.Tree.Strings — the strings inside a tree.

  A walk that changes the strings of a tree looks at its strings and at nothing else.  Two walks
  that agree on the strings of a tree agree on the tree, and a walk comes to its end exactly if
  it gets past each string by itself.

  Main facts:
    * `mapStrings_congr` — what happens to the strings of a tree is what happens to the tree.
    * `exists_mapStrings_eq_ok_iff` — a tree can be changed when each of its strings can.
-/
import DesignTokens.Proofs.Outcome
import DesignTokens.Proofs.Tree.Inside
import DesignTokens.Tree.Strings

namespace DesignTokens.Tree

/-! ## §1. What is asked of the strings -/

/-- A tree that is a string has a property; nothing is asked of other trees. -/
def AsString (p : String → Prop) : Tree → Prop
  | .str s => p s
  | .null | .bool _ | .num _ | .arr _ | .obj _ => True

instance {p : String → Prop} [DecidablePred p] : DecidablePred (AsString p)
  | .str s => inferInstanceAs (Decidable (p s))
  | .null | .bool _ | .num _ | .arr _ | .obj _ => isTrue True.intro

/-- Every string inside the tree, or the string that it is, has a property.  Keys do not count. -/
def EveryString (p : String → Prop) (t : Tree) : Prop := t.Throughout (AsString p)

instance {p : String → Prop} [DecidablePred p] (t : Tree) : Decidable (t.EveryString p) :=
  inferInstanceAs (Decidable (t.Throughout (AsString p)))

section
variable {p q : String → Prop}

theorem EveryString.mono {t : Tree} (h : t.EveryString p) (hpq : ∀ s, p s → q s) :
    t.EveryString q := by
  intro s hs
  have hp := h s hs
  cases s with
  | str text => exact hpq text hp
  | null | bool | num | arr | obj => exact True.intro

theorem everyString_str_iff {s : String} : (Tree.str s).EveryString p ↔ p s :=
  throughout_scalar_iff rfl

theorem everyString_arr_iff {items : List Tree} :
    (Tree.arr items).EveryString p ↔ ∀ item ∈ items, item.EveryString p :=
  throughout_arr_iff.trans (and_iff_right True.intro)

theorem everyString_obj_iff {fields : List (String × Tree)} :
    (Tree.obj fields).EveryString p ↔ ∀ entry ∈ fields, entry.2.EveryString p :=
  throughout_obj_iff.trans (and_iff_right True.intro)

theorem everyString_null : Tree.null.EveryString p := (throughout_scalar_iff rfl).2 True.intro

theorem everyString_bool (b : Bool) : (Tree.bool b).EveryString p :=
  (throughout_scalar_iff rfl).2 True.intro

theorem everyString_num (n : Number) : (Tree.num n).EveryString p :=
  (throughout_scalar_iff rfl).2 True.intro

end

/-! ## §2. Walks over the strings -/

section Walks

variable {ε : Type} {f g : String → Except ε String}

mutual

/-- **What happens to the strings of a tree is what happens to the tree.** -/
theorem mapStrings_congr : (t : Tree) → t.EveryString (fun s => f s = g s) →
    t.mapStrings f = t.mapStrings g
  | .null, _ | .bool _, _ | .num _, _ => rfl
  | .str s, h => by rw [mapStrings, mapStrings, everyString_str_iff.1 h]
  | .arr items, h => by
    rw [mapStrings, mapStrings, mapStringsOfItems_congr items (everyString_arr_iff.1 h)]
  | .obj fields, h => by
    rw [mapStrings, mapStrings, mapStringsOfFields_congr fields (everyString_obj_iff.1 h)]

theorem mapStringsOfItems_congr : (items : List Tree) →
    (∀ item ∈ items, item.EveryString fun s => f s = g s) →
    mapStringsOfItems f items = mapStringsOfItems g items
  | [], _ => rfl
  | item :: rest, h => by
    obtain ⟨hitem, hrest⟩ := List.forall_mem_cons.1 h
    rw [mapStringsOfItems, mapStringsOfItems, mapStrings_congr item hitem,
      mapStringsOfItems_congr rest hrest]

theorem mapStringsOfFields_congr : (fields : List (String × Tree)) →
    (∀ entry ∈ fields, entry.2.EveryString fun s => f s = g s) →
    mapStringsOfFields f fields = mapStringsOfFields g fields
  | [], _ => rfl
  | (key, value) :: rest, h => by
    obtain ⟨hvalue, hrest⟩ := List.forall_mem_cons.1 h
    rw [mapStringsOfFields, mapStringsOfFields, mapStrings_congr value hvalue,
      mapStringsOfFields_congr rest hrest]

end

/-- A tree whose strings stay as they are stays as it is. -/
theorem mapStrings_eq_self {t : Tree} (h : t.EveryString fun s => f s = .ok s) :
    t.mapStrings f = .ok t :=
  (mapStrings_congr t h).trans (mapStrings_ok t)

mutual

/-- **A tree can be changed when each of its strings can.** -/
theorem exists_mapStrings_eq_ok_iff : (t : Tree) →
    ((∃ u, t.mapStrings f = .ok u) ↔ t.EveryString fun s => ∃ u, f s = .ok u)
  | .null => iff_of_true ⟨.null, rfl⟩ everyString_null
  | .bool b => iff_of_true ⟨.bool b, rfl⟩ (everyString_bool b)
  | .num n => iff_of_true ⟨.num n, rfl⟩ (everyString_num n)
  | .str s => by
    rw [everyString_str_iff]
    exact exists_map_eq_ok_iff
  | .arr items => by
    rw [everyString_arr_iff, ← exists_mapStringsOfItems_eq_ok_iff items]
    exact exists_map_eq_ok_iff
  | .obj fields => by
    rw [everyString_obj_iff, ← exists_mapStringsOfFields_eq_ok_iff fields]
    exact exists_map_eq_ok_iff

theorem exists_mapStringsOfItems_eq_ok_iff : (items : List Tree) →
    ((∃ us, mapStringsOfItems f items = .ok us) ↔
      ∀ item ∈ items, item.EveryString fun s => ∃ u, f s = .ok u)
  | [] => iff_of_true ⟨[], rfl⟩ fun _ h => absurd h List.not_mem_nil
  | item :: rest => by
    rw [List.forall_mem_cons, ← exists_mapStrings_eq_ok_iff item,
      ← exists_mapStringsOfItems_eq_ok_iff rest]
    exact exists_both_eq_ok_iff

theorem exists_mapStringsOfFields_eq_ok_iff : (fields : List (String × Tree)) →
    ((∃ us, mapStringsOfFields f fields = .ok us) ↔
      ∀ entry ∈ fields, entry.2.EveryString fun s => ∃ u, f s = .ok u)
  | [] => iff_of_true ⟨[], rfl⟩ fun _ h => absurd h List.not_mem_nil
  | (key, value) :: rest => by
    rw [List.forall_mem_cons, ← exists_mapStrings_eq_ok_iff value,
      ← exists_mapStringsOfFields_eq_ok_iff rest]
    exact exists_both_eq_ok_iff

end

end Walks

end DesignTokens.Tree
