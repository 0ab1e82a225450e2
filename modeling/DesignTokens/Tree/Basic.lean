/-
  DesignTokens.Tree.Basic — the trees that documents are made of.

  A tree is a scalar, an array of trees, or an object whose entries stand in written order.
  Objects made by a reader or by the operations of this library have distinct keys; the type
  itself does not ask for it.

  Equality of trees is decided by recursion, so closed statements about trees evaluate.
-/
import DesignTokens.Entries
import DesignTokens.Number.Basic

namespace DesignTokens

/-- A tree of values. -/
inductive Tree where
  | null
  | bool (value : Bool)
  | num (value : Number)
  | str (value : String)
  | arr (items : List Tree)
  | obj (fields : List (String × Tree))
deriving Repr, Inhabited

namespace Tree

/-! ## §1. Equality is decidable -/

mutual

/-- Decides equality of trees. -/
def equalTree : (a b : Tree) → Decidable (a = b)
  | .null, .null => isTrue rfl
  | .bool a, .bool b => if h : a = b then isTrue (by rw [h]) else isFalse (by simp [h])
  | .num a, .num b => if h : a = b then isTrue (by rw [h]) else isFalse (by simp [h])
  | .str a, .str b => if h : a = b then isTrue (by rw [h]) else isFalse (by simp [h])
  | .arr a, .arr b =>
    match equalItems a b with
    | isTrue h => isTrue (by rw [h])
    | isFalse h => isFalse (by simp [h])
  | .obj a, .obj b =>
    match equalFields a b with
    | isTrue h => isTrue (by rw [h])
    | isFalse h => isFalse (by simp [h])
  | .null, .bool _ | .null, .num _ | .null, .str _ | .null, .arr _ | .null, .obj _
  | .bool _, .null | .bool _, .num _ | .bool _, .str _ | .bool _, .arr _ | .bool _, .obj _
  | .num _, .null | .num _, .bool _ | .num _, .str _ | .num _, .arr _ | .num _, .obj _
  | .str _, .null | .str _, .bool _ | .str _, .num _ | .str _, .arr _ | .str _, .obj _
  | .arr _, .null | .arr _, .bool _ | .arr _, .num _ | .arr _, .str _ | .arr _, .obj _
  | .obj _, .null | .obj _, .bool _ | .obj _, .num _ | .obj _, .str _ | .obj _, .arr _ =>
    isFalse nofun

/-- Decides equality of the items of two arrays. -/
def equalItems : (a b : List Tree) → Decidable (a = b)
  | [], [] => isTrue rfl
  | [], _ :: _ | _ :: _, [] => isFalse nofun
  | x :: xs, y :: ys =>
    match equalTree x y, equalItems xs ys with
    | isTrue h, isTrue h' => isTrue (by rw [h, h'])
    | isFalse h, _ => isFalse (by simp [h])
    | _, isFalse h => isFalse (by simp [h])

/-- Decides equality of the fields of two objects. -/
def equalFields : (a b : List (String × Tree)) → Decidable (a = b)
  | [], [] => isTrue rfl
  | [], _ :: _ | _ :: _, [] => isFalse nofun
  | (k, x) :: xs, (l, y) :: ys =>
    match instDecidableEqString k l, equalTree x y, equalFields xs ys with
    | isTrue h, isTrue h', isTrue h'' => isTrue (by rw [h, h', h''])
    | isFalse h, _, _ => isFalse (by simp [h])
    | _, isFalse h, _ => isFalse (by simp [h])
    | _, _, isFalse h => isFalse (by simp [h])

end

instance : DecidableEq Tree := equalTree

/-! ## §2. Kinds of trees -/

/-- The name of a tree's kind, as messages give it. -/
def kind : Tree → String
  | .null => "null"
  | .bool _ => "boolean"
  | .num _ => "number"
  | .str _ => "string"
  | .arr _ => "array"
  | .obj _ => "object"

/-- Whether the tree is an array or an object. -/
def isContainer : Tree → Bool
  | .arr _ | .obj _ => true
  | _ => false

/-- Whether the tree is an object. -/
def isObject : Tree → Bool
  | .obj _ => true
  | _ => false

/-- Whether the tree is an array or object that holds nothing. -/
def isEmptyContainer : Tree → Bool
  | .arr [] | .obj [] => true
  | _ => false

/-- A tree that holds an integer. -/
def ofInt (i : Int) : Tree := .num (.int i)

end Tree

end DesignTokens
