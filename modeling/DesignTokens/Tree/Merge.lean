/-
  DesignTokens.Tree.Merge — laying one tree over another.

  Where both trees hold objects their entries are merged key by key; everywhere else the tree
  on top replaces the one below.  Keys of the lower object keep their places, and new keys
  follow in the order of the upper one.

  Main facts:
    * `merge_of_not_isObject` — a tree on top that is no object replaces what is below.
    * `mergeFields_cons` — one entry is laid over after the other.
-/
import DesignTokens.Tree.Basic

namespace DesignTokens.Tree

mutual

/-- Lays the tree `top` over `base`. -/
def merge (base : Tree) : Tree → Tree
  | .obj top =>
    match base with
    | .obj fields => .obj (mergeFields fields top)
    | _ => .obj top
  | top => top

/-- Lays the entries of an object over those of another, one after the other. -/
def mergeFields (fields : List (String × Tree)) : List (String × Tree) → List (String × Tree)
  | [] => fields
  | (key, value) :: rest =>
    match Entries.get? key fields with
    | some old => mergeFields (Entries.put key (merge old value) fields) rest
    | none => mergeFields (Entries.put key value fields) rest

end

theorem merge_of_not_isObject {base top : Tree} (h : top.isObject = false) :
    base.merge top = top := by
  cases top <;> simp_all [merge, isObject]

@[simp] theorem merge_obj_obj (fields top : List (String × Tree)) :
    (Tree.obj fields).merge (.obj top) = .obj (mergeFields fields top) := by
  rw [merge]

@[simp] theorem mergeFields_nil (fields : List (String × Tree)) :
    mergeFields fields [] = fields := by
  rw [mergeFields]

/-- One entry is laid over after the other. -/
theorem mergeFields_cons (fields : List (String × Tree)) (key : String) (value : Tree)
    (rest : List (String × Tree)) :
    mergeFields fields ((key, value) :: rest)
      = mergeFields (Entries.put key
          (match Entries.get? key fields with
            | some old => old.merge value
            | none => value) fields) rest := by
  rw [mergeFields]
  split <;> simp_all

end DesignTokens.Tree
