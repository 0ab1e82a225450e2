/-
  DesignTokens.Tree.Strings — changing the strings of a tree.

  Only string values are changed; keys stay as they are.  The strings are visited in document
  order, and the first one that cannot be changed ends the walk.

  Main facts:
    * `mapStrings_ok` — taking every string to itself changes nothing.
-/
import DesignTokens.Tree.Basic

namespace DesignTokens.Tree

mutual

/-- The tree with every string changed. -/
def mapStrings {ε : Type} (f : String → Except ε String) : Tree → Except ε Tree
  | .str s => (f s).map .str
  | .arr items => (mapStringsOfItems f items).map .arr
  | .obj fields => (mapStringsOfFields f fields).map .obj
  | .null => .ok .null
  | .bool b => .ok (.bool b)
  | .num n => .ok (.num n)

/-- The items of an array with every string changed. -/
def mapStringsOfItems {ε : Type} (f : String → Except ε String) :
    List Tree → Except ε (List Tree)
  | [] => .ok []
  | item :: rest => do
    let item ← mapStrings f item
    let rest ← mapStringsOfItems f rest
    return item :: rest

/-- The fields of an object with every string changed. -/
def mapStringsOfFields {ε : Type} (f : String → Except ε String) :
    List (String × Tree) → Except ε (List (String × Tree))
  | [] => .ok []
  | (key, value) :: rest => do
    let value ← mapStrings f value
    let rest ← mapStringsOfFields f rest
    return (key, value) :: rest

end

mutual

/-- Taking every string to itself changes nothing. -/
theorem mapStrings_ok {ε : Type} : (t : Tree) → mapStrings (ε := ε) .ok t = .ok t
  | .null | .bool _ | .num _ | .str _ => rfl
  | .arr items => by rw [mapStrings, mapStringsOfItems_ok items]; rfl
  | .obj fields => by rw [mapStrings, mapStringsOfFields_ok fields]; rfl

theorem mapStringsOfItems_ok {ε : Type} :
    (items : List Tree) → mapStringsOfItems (ε := ε) .ok items = .ok items
  | [] => rfl
  | item :: rest => by rw [mapStringsOfItems, mapStrings_ok item, mapStringsOfItems_ok rest]; rfl

theorem mapStringsOfFields_ok {ε : Type} :
    (fields : List (String × Tree)) → mapStringsOfFields (ε := ε) .ok fields = .ok fields
  | [] => rfl
  | (key, value) :: rest => by
    rw [mapStringsOfFields, mapStrings_ok value, mapStringsOfFields_ok rest]; rfl

end

end DesignTokens.Tree
