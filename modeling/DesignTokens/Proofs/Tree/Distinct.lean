/-
  DesignTokens.Proofs.Tree.Distinct — operations of trees keep keys distinct.

  Objects are changed by writing under a key and by removing an entry, and neither can make a
  key stand twice.  So whatever is made of trees with distinct keys has distinct keys again:
  what they hold, one laid over another, and a tree with its strings changed.

  Main facts:
    * `distinct_put`, `distinct_erase` — writing to an object, and removing from it.
    * `distinct_merge` — one tree laid over another.
    * `makes_mapStrings` — a tree with its strings changed.
-/
import DesignTokens.Proofs.Outcome
import DesignTokens.Proofs.Tree.Inside
import DesignTokens.Tree.Merge
import DesignTokens.Tree.Strings

namespace DesignTokens.Tree

/-! ## §1. Objects -/

section Objects

variable {key : String} {value : Tree} {fields : List (String × Tree)}

theorem distinct_obj_nil : (Tree.obj []).Distinct :=
  distinct_obj_iff.2 ⟨List.nodup_nil, fun _ h => nomatch h⟩

theorem distinct_of_get? (h : (Tree.obj fields).Distinct)
    (hvalue : Entries.get? key fields = some value) : value.Distinct :=
  (distinct_obj_iff.1 h).2 _ (Entries.mem_of_get? hvalue)

theorem distinct_put (h : (Tree.obj fields).Distinct) (hvalue : value.Distinct) :
    (Tree.obj (Entries.put key value fields)).Distinct := by
  obtain ⟨hkeys, hvalues⟩ := distinct_obj_iff.1 h
  refine distinct_obj_iff.2 ⟨Entries.nodup_keys_put hkeys key value, fun entry hentry => ?_⟩
  rcases Entries.mem_put hentry with rfl | hentry
  · exact hvalue
  · exact hvalues entry hentry

theorem distinct_erase (h : (Tree.obj fields).Distinct) (key : String) :
    (Tree.obj (Entries.erase key fields)).Distinct := by
  obtain ⟨hkeys, hvalues⟩ := distinct_obj_iff.1 h
  exact distinct_obj_iff.2 ⟨Entries.nodup_keys_erase hkeys key,
    fun entry hentry => hvalues entry (Entries.mem_of_mem_erase hentry)⟩

/-- An object that is written entry by entry. -/
theorem distinct_ofWrites {writes : List (String × Tree)}
    (h : ∀ entry ∈ writes, entry.2.Distinct) : (Tree.obj (Entries.ofWrites writes)).Distinct := by
  have hfold : ∀ start, (Tree.obj start).Distinct →
      (Tree.obj (writes.foldl (fun entries (k, v) => Entries.put k v entries) start)).Distinct := by
    induction writes with
    | nil => exact fun start hstart => hstart
    | cons entry rest ih =>
      obtain ⟨hvalue, hrest⟩ := List.forall_mem_cons.1 h
      exact fun start hstart => ih hrest _ (distinct_put hstart hvalue)
  exact hfold [] distinct_obj_nil

end Objects

/-! ## §2. Arrays -/

section Arrays

variable {items : List Tree} {value : Tree}

theorem distinct_of_getElem? (h : (Tree.arr items).Distinct) {index : Nat}
    (hvalue : items[index]? = some value) : value.Distinct :=
  distinct_arr_iff.1 h value (List.mem_of_getElem? hvalue)

theorem distinct_set (h : (Tree.arr items).Distinct) (hvalue : value.Distinct) (index : Nat) :
    (Tree.arr (items.set index value)).Distinct := by
  refine distinct_arr_iff.2 fun item hitem => ?_
  rcases List.mem_or_eq_of_mem_set hitem with hitem | rfl
  · exact distinct_arr_iff.1 h item hitem
  · exact hvalue

theorem distinct_concat (h : (Tree.arr items).Distinct) (hvalue : value.Distinct) :
    (Tree.arr (items ++ [value])).Distinct := by
  refine distinct_arr_iff.2 fun item hitem => ?_
  rcases List.mem_append.1 hitem with hitem | hitem
  · exact distinct_arr_iff.1 h item hitem
  · exact List.mem_singleton.1 hitem ▸ hvalue

theorem distinct_eraseIdx (h : (Tree.arr items).Distinct) (index : Nat) :
    (Tree.arr (items.eraseIdx index)).Distinct :=
  distinct_arr_iff.2 fun item hitem =>
    distinct_arr_iff.1 h item (List.mem_of_mem_eraseIdx hitem)

end Arrays

/-! ## §3. Whole trees -/

mutual

/-- **One tree laid over another** has distinct keys when both have. -/
theorem distinct_merge {base : Tree} (hbase : base.Distinct) :
    (top : Tree) → top.Distinct → (base.merge top).Distinct
  | .null, h | .bool _, h | .num _, h | .str _, h | .arr _, h => by
    rwa [merge_of_not_isObject rfl]
  | .obj top, h => by
    cases base with
    | obj fields =>
      rw [merge_obj_obj]
      exact distinct_mergeFields hbase top (distinct_obj_iff.1 h).2
    | null | bool | num | str | arr => exact h

/-- Every entry is laid over what stands under its key, and the keys of the upper object need
    not be distinct themselves. -/
theorem distinct_mergeFields {fields : List (String × Tree)} (hfields : (Tree.obj fields).Distinct) :
    (top : List (String × Tree)) → (∀ entry ∈ top, entry.2.Distinct) →
      (Tree.obj (mergeFields fields top)).Distinct
  | [], _ => by rwa [mergeFields_nil]
  | (key, value) :: rest, h => by
    have hvalue : value.Distinct := h (key, value) List.mem_cons_self
    have hrest : ∀ entry ∈ rest, entry.2.Distinct :=
      fun entry hentry => h entry (List.mem_cons_of_mem _ hentry)
    rw [mergeFields]
    split
    · next old hold =>
      have hmerged : (old.merge value).Distinct :=
        distinct_merge (distinct_of_get? hfields hold) value hvalue
      exact distinct_mergeFields (distinct_put hfields hmerged) rest hrest
    · exact distinct_mergeFields (distinct_put hfields hvalue) rest hrest

end

/-- What lies on top says whether there is an object. -/
theorem isObject_merge (base top : Tree) : (base.merge top).isObject = top.isObject := by
  cases top with
  | null | bool | num | str | arr => rw [merge_of_not_isObject rfl]
  | obj top =>
    cases base with
    | obj fields =>
      rw [merge_obj_obj]
      rfl
    | null | bool | num | str | arr => rfl

section Strings

variable {ε : Type} {f : String → Except ε String}

mutual

/-- **A tree with its strings changed** has the keys that it had. -/
theorem makes_mapStrings : (t : Tree) → t.Distinct → Makes (t.mapStrings f) Distinct
  | .null, h | .bool _, h | .num _, h => Makes.ok h
  | .str s, _ => (Makes.trivial (f s)).map fun _ _ => distinct_of_scalar rfl
  | .arr items, h =>
    (makes_mapStringsOfItems items (distinct_arr_iff.1 h)).map fun _ => distinct_arr_iff.2
  | .obj fields, h => by
    obtain ⟨hkeys, hvalues⟩ := distinct_obj_iff.1 h
    refine (makes_mapStringsOfFields fields hvalues).map fun changed hchanged => ?_
    exact distinct_obj_iff.2 ⟨hchanged.1 ▸ hkeys, hchanged.2⟩

theorem makes_mapStringsOfItems : (items : List Tree) → (∀ item ∈ items, item.Distinct) →
    Makes (mapStringsOfItems f items) fun changed => ∀ item ∈ changed, item.Distinct
  | [], h => Makes.ok h
  | item :: rest, h => by
    obtain ⟨hitem, hrest⟩ := List.forall_mem_cons.1 h
    refine (makes_mapStrings item hitem).bind fun changed hchanged => ?_
    refine (makes_mapStringsOfItems rest hrest).bind fun others hothers => ?_
    exact Makes.ok (List.forall_mem_cons.2 ⟨hchanged, hothers⟩)

theorem makes_mapStringsOfFields : (fields : List (String × Tree)) →
    (∀ entry ∈ fields, entry.2.Distinct) →
    Makes (mapStringsOfFields f fields) fun changed =>
      Entries.keys changed = Entries.keys fields ∧ ∀ entry ∈ changed, entry.2.Distinct
  | [], h => Makes.ok ⟨rfl, h⟩
  | (key, value) :: rest, h => by
    obtain ⟨hvalue, hrest⟩ := List.forall_mem_cons.1 h
    refine (makes_mapStrings value hvalue).bind fun changed hchanged => ?_
    refine (makes_mapStringsOfFields rest hrest).bind fun others hothers => ?_
    refine Makes.ok ⟨congrArg (key :: ·) hothers.1, ?_⟩
    exact List.forall_mem_cons.2 ⟨hchanged, hothers.2⟩

end

end Strings

end DesignTokens.Tree
