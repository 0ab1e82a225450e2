/-
  DesignTokens.Proofs.Edit.Undo — removing what was added.

  A strict `add` puts a new field or a new last item into a parent that was there, and below
  that parent nothing stood at its place.  So its removal finds exactly what was added, and on
  the way back every parent that was changed is hung back in its place.  A path that ends in a
  dash is the exception: after the `add` the dash names the place behind the new item.

  Main facts:
    * `detach_of_written` — taking out what was written where nothing stood.
    * `remove_undoes_add` — a strict removal undoes a strict `add`, and a removal of what is
      not there changes nothing.
-/
import DesignTokens.Proofs.Edit.Checks
import DesignTokens.Proofs.Edit.Exact

namespace DesignTokens.Edit

variable {here : Pointer} {segment : String} {rest : List String} {node child remainder t t' : Tree}

/-! ## §1. Detaching what hangs under a segment -/

/-- What was hung where nothing was is taken out again, and leaves what was there before. -/
theorem detach_last_of_hung (h : Hung node segment t t') (hnew : t.child? segment = none) :
    detach here [segment] t' = .ok (some ⟨node, t⟩) := by
  cases t with
  | null | bool | num | str => cases h
  | obj fields =>
    obtain rfl := hung_obj_iff.1 h
    have hkey : segment ∉ Entries.keys fields := Entries.get?_eq_none_iff.1 hnew
    unfold detach
    rw [Entries.get?_put_self, Entries.erase_put_of_not_mem hkey]
    rfl
  | arr items =>
    obtain ⟨index, rfl, bound, ⟨inside, -⟩ | ⟨rfl, rfl⟩⟩ := hung_arr_iff.1 h
    · -- a position inside the array names an item that was there
      have hitem : (Tree.arr items).child? (toString index) = some items[index] :=
        Tree.child?_arr_eq_some_iff.2 ⟨index, rfl, bound, List.getElem?_eq_getElem inside⟩
      rw [hnew] at hitem
      cases hitem
    · have hindex : position (here.child (toString items.length)) (toString items.length)
          (items ++ [node]).length = .ok items.length := by
        rw [List.length_append]
        exact position_toString bound (Nat.le_add_right _ _)
      unfold detach
      refine bind_eq_ok_iff.2 ⟨items.length, hindex, ?_⟩
      rw [List.getElem?_concat_length, List.eraseIdx_append_of_length_le (Nat.le_refl _),
        Nat.sub_self, List.eraseIdx_cons_zero, List.append_nil]
      rfl

/-- What is taken out of a child is taken out of the tree, and what is left of the child is
    hung in its place. -/
theorem detach_deeper (hrest : rest ≠ []) (hchild : t.child? segment = some child)
    (hdetach : detach (here.child segment) rest child = .ok (some ⟨node, remainder⟩))
    (h : Hung remainder segment t t') :
    detach here (segment :: rest) t = .ok (some ⟨node, t'⟩) := by
  cases rest with
  | nil => exact absurd rfl hrest
  | cons next rest =>
    cases t with
    | null | bool | num | str => cases h
    | obj fields =>
      obtain rfl := hung_obj_iff.1 h
      have hfield : Entries.get? segment fields = some child := hchild
      unfold detach
      rw [hfield]
      exact bind_eq_ok_iff.2 ⟨_, hdetach, rfl⟩
    | arr items =>
      obtain ⟨index, rfl, bound, ⟨inside, rfl⟩ | ⟨rfl, -⟩⟩ := hung_arr_iff.1 h
      · have hindex : position (here.child (toString index)) (toString index) items.length
            = .ok index := position_toString bound (Nat.le_of_lt inside)
        rw [Tree.child?_of_position hindex] at hchild
        unfold detach
        refine bind_eq_ok_iff.2 ⟨index, hindex, ?_⟩
        rw [hchild]
        exact bind_eq_ok_iff.2 ⟨_, hdetach, rfl⟩
      · rw [Tree.child?_behind] at hchild
        cases hchild

/-! ## §2. Detaching what was written -/

/-- **What was written where nothing stood is taken out again**, and leaves what was there
    before, provided that no parent had to be made. -/
theorem detach_of_written {leaf : Option Tree → Tree} {place : List String} {parent : Tree}
    (h : Written leaf place t t') (hparent : t.at? place.dropLast = some parent)
    (hplace : t.at? place = none) (here : Pointer) :
    detach here place t' = .ok (some ⟨leaf none, t⟩) := by
  induction h generalizing here with
  | @last segment t t' hung =>
    have hnew : t.child? segment = none := by
      rw [Tree.at?_cons] at hplace
      cases hchild : t.child? segment with
      | none => rfl
      | some old =>
        rw [hchild] at hplace
        cases hplace
    rw [hnew] at hung
    exact detach_last_of_hung hung hnew
  | @deeper segment rest t t' child hwritten hung ih =>
    have hrest : rest ≠ [] := ne_nil_of_written hwritten
    obtain ⟨next, others, rfl⟩ := List.exists_cons_of_ne_nil hrest
    rw [List.dropLast_cons_cons, Tree.at?_cons] at hparent
    rw [Tree.at?_cons] at hplace
    cases hold : t.child? segment with
    | none =>
      rw [hold] at hparent
      cases hparent
    | some old =>
      rw [hold] at hparent hplace ih
      exact detach_deeper hrest (child?_of_hung hung) (ih hparent hplace _) (hung_back hung hold)

/-! ## §3. Undoing an `add` -/

variable {path : Pointer} {doc : Tree}

theorem at?_of_absent (h : get doc path = .ok none) : doc.at? path.segments = none := by
  cases hat : doc.at? path.segments with
  | none => rfl
  | some node =>
    have hget : get doc path = .ok (some node) := get_eq_ok_some_iff.2 hat
    rw [h] at hget
    cases hget

/-- A removal without checks leaves a document as it is where nothing stands. -/
theorem remove_of_absent {flag : Option Bool} (h : get doc path = .ok none) :
    (Edit.remove path flag).applyWith false doc = .ok doc := by
  unfold applyWith
  dsimp only
  split
  · next hroot =>
    -- the document itself stands at the root
    have hsegments : path.segments = [] := List.isEmpty_iff.1 hroot
    unfold get at h
    rw [hsegments] at h
    cases h
  · rw [take_of_absent h]
    rfl

/-- **A strict removal undoes a strict `add`**: it gives back the very document, with its keys
    in their order and its arrays as they were.  And a removal without checks that is made
    where nothing stands gives back the document, too. -/
theorem remove_undoes_add (doc : Tree) :
    (∀ (path : Pointer) (value doc' : Tree) (flag flag' : Option Bool),
      path.isRoot = false → path.segments.getLast? ≠ some "-" →
        (Edit.write .add path value flag).applyWith true doc = .ok doc' →
          (Edit.remove path flag').applyWith true doc' = .ok doc) ∧
    ∀ (path : Pointer) (rest : Tree) (flag : Option Bool),
      (Edit.remove path flag).applyWith false doc = .ok rest → get doc path = .ok none →
        rest = doc := by
  refine ⟨?_, ?_⟩
  · intro path value doc' flag flag' hpath hlast hadd
    have hguard : Guarded (Vacant path doc) (writeAt .add true path value doc)
        (writeAt .add false path value doc) := guarded_add hpath
    obtain ⟨hlenient, ⟨parent, hget⟩, habsent⟩ := (hguard doc').1 hadd
    have hparent : doc.at? path.segments.dropLast = some parent := get_eq_ok_some_iff.1 hget
    have hanchored : Tree.anchored path.segments doc = path.segments :=
      Tree.anchored_of_parent hparent hlast
    have hwritten : Written (left .add value) path.segments doc doc' :=
      (writeAt_eq_ok_iff hpath hanchored).1 hlenient
    have htake : take doc' path = .ok (some ⟨value, doc⟩) :=
      detach_of_written hwritten hparent (at?_of_absent habsent) .root
    exact remove_of_take htake
  · intro path rest flag hremove habsent
    exact Except.ok.inj (hremove.symm.trans (remove_of_absent habsent))

/-- A third book that is put on the shelf can be taken off again, and so can its owner's name
    in the second book; where there is no fourth book, none is removed. -/
theorem remove_undoes_add_shelf :
    (∃ doc', (Edit.write .add ⟨["books", "2"]⟩ (.str "grammar") none).applyWith true shelf
        = .ok doc' ∧ (Edit.remove ⟨["books", "2"]⟩ none).applyWith true doc' = .ok shelf) ∧
      (∃ doc', (Edit.write .add ⟨["books", "1", "owner"]⟩ .null none).applyWith true shelf
        = .ok doc' ∧ (Edit.remove ⟨["books", "1", "owner"]⟩ none).applyWith true doc' = .ok shelf) ∧
      ∀ rest, (Edit.remove ⟨["books", "2", "title"]⟩ none).applyWith false shelf = .ok rest →
        rest = shelf := by
  have hbook : (Edit.write .add ⟨["books", "2"]⟩ (.str "grammar") none).applyWith true shelf
      = .ok (.obj [("books", .arr [.str "atlas", .obj [("title", .str "lexicon")],
        .str "grammar"])]) := rfl
  have howner : (Edit.write .add ⟨["books", "1", "owner"]⟩ .null none).applyWith true shelf
      = .ok (.obj [("books", .arr [.str "atlas",
        .obj [("title", .str "lexicon"), ("owner", .null)]])]) := rfl
  refine ⟨⟨_, hbook, ?_⟩, ⟨_, howner, ?_⟩, ?_⟩
  · exact (remove_undoes_add shelf).1 _ _ _ none none rfl (by decide) hbook
  · exact (remove_undoes_add shelf).1 _ _ _ none none rfl (by decide) howner
  · exact fun rest hrest => (remove_undoes_add shelf).2 _ _ _ hrest rfl

end DesignTokens.Edit
