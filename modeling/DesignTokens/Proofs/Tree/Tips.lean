/-
  DesignTokens.Proofs.Tree.Tips — the scalars of a tree with the steps that lead to them.

  A leaf is placed by texts, so that position `0` of an array and the key `0` of an object look
  alike.  A tip is a leaf that is placed by steps, which tell keys and positions apart.

  Main facts:
    * `placeText_eq_intercalate` — the text of a place has its keys with the separator between
      them, unless the first key is empty.
-/
import DesignTokens.Tree.Leaves

namespace DesignTokens.Tree

/-! ## §1. Tips -/

/-- A step from a container to what it holds. -/
inductive Step where
  | key (name : String)
  | item (position : Nat)
deriving Repr, DecidableEq

/-- The text of a step in a place; that of a position is its decimal numeral. -/
def Step.text : Step → String
  | .key name => name
  | .item position => toString position

/-- A scalar with the steps that lead to it. -/
structure Tip where
  path : List Step
  value : Tree
deriving Repr, DecidableEq

/-- The tip of a child, seen from its parent. -/
def Tip.under (step : Step) (tip : Tip) : Tip := { tip with path := step :: tip.path }

mutual

/-- The tips of a tree in document order. -/
def tips : Tree → List Tip
  | .arr items => tipsOfItems 0 items
  | .obj fields => tipsOfFields fields
  | .null => [⟨[], .null⟩]
  | .bool b => [⟨[], .bool b⟩]
  | .num n => [⟨[], .num n⟩]
  | .str s => [⟨[], .str s⟩]

/-- The tips of the items of an array, the first of which has the position `index`. -/
def tipsOfItems (index : Nat) : List Tree → List Tip
  | [] => []
  | item :: rest => item.tips.map (.under (.item index)) ++ tipsOfItems (index + 1) rest

/-- The tips of the fields of an object. -/
def tipsOfFields : List (String × Tree) → List Tip
  | [] => []
  | (key, value) :: rest => value.tips.map (.under (.key key)) ++ tipsOfFields rest

end

theorem tips_of_scalar {t : Tree} (h : t.isContainer = false) : t.tips = [⟨[], t⟩] := by
  cases t with
  | arr items => cases h
  | obj fields => cases h
  | null | bool | num | str => rfl

/-- The items of an array have the positions from `index` on. -/
theorem exists_of_mem_tipsOfItems {index : Nat} {items : List Tree} {tip : Tip}
    (h : tip ∈ tipsOfItems index items) :
    ∃ position rest, index ≤ position ∧ tip.path = .item position :: rest := by
  induction items generalizing index with
  | nil => exact nomatch h
  | cons item others ih =>
    rcases List.mem_append.1 h with hitem | hothers
    · obtain ⟨below, -, rfl⟩ := List.mem_map.1 hitem
      exact ⟨index, below.path, Nat.le_refl _, rfl⟩
    · obtain ⟨position, rest, hle, hpath⟩ := ih hothers
      exact ⟨position, rest, by omega, hpath⟩

/-- The fields of an object are under its keys. -/
theorem exists_of_mem_tipsOfFields {fields : List (String × Tree)} {tip : Tip}
    (h : tip ∈ tipsOfFields fields) :
    ∃ key ∈ Entries.keys fields, ∃ rest, tip.path = .key key :: rest := by
  induction fields with
  | nil => exact nomatch h
  | cons entry others ih =>
    obtain ⟨key, value⟩ := entry
    rcases List.mem_append.1 h with hvalue | hothers
    · obtain ⟨below, -, rfl⟩ := List.mem_map.1 hvalue
      exact ⟨key, List.mem_cons_self, below.path, rfl⟩
    · obtain ⟨other, hmem, rest, hpath⟩ := ih hothers
      exact ⟨other, List.mem_cons_of_mem _ hmem, rest, hpath⟩

/-! ## §2. The text of a place -/

theorem placeStep_of_ne_empty {separator text : String} (h : text ≠ "") (key : String) :
    placeStep separator text key = text ++ separator ++ key := by
  unfold placeStep
  rw [if_neg (by simpa using h)]

/-- Behind a text that is not empty every key comes with the separator in front. -/
theorem foldl_placeStep_of_ne_empty {separator text : String} (h : text ≠ "")
    (place : List String) :
    place.foldl (placeStep separator) text = separator.intercalate (text :: place) := by
  induction place generalizing text with
  | nil => rfl
  | cons key rest ih =>
    have hlonger : text ++ separator ++ key ≠ "" := by
      rw [String.append_assoc]
      exact fun hempty => h (String.append_eq_empty_iff.1 hempty).1
    rw [List.foldl_cons, placeStep_of_ne_empty h, ih hlonger]
    rfl

/-- **The text of a place has its keys with the separator between them**, unless the first key
    is empty. -/
theorem placeText_eq_intercalate (separator : String) {key : String} (hkey : key ≠ "")
    (rest : List String) :
    placeText separator (key :: rest) = separator.intercalate (key :: rest) :=
  foldl_placeStep_of_ne_empty hkey rest

end DesignTokens.Tree
