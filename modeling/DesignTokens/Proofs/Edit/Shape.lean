/-
  DesignTokens.Proofs.Edit.Shape — edits turn documents into documents.

  A document that is edited is an object, and its objects have distinct keys.  An edit keeps it
  so wherever it is made: below the root it keeps every container what it is, and at the root it
  leaves an object or fails.

  Main facts:
    * `makes_detach` — what is taken out, and what is left.
    * `makes_writeAt` — a write, at the root or below it.
    * `makes_applyAll` — edits turn documents into documents.
-/
import DesignTokens.Edit.Apply
import DesignTokens.Proofs.Tree.Distinct

namespace DesignTokens

open DesignTokens.Tree (distinct_obj_nil distinct_of_get? distinct_put distinct_erase distinct_of_getElem?
  distinct_set distinct_concat distinct_eraseIdx distinct_merge isObject_merge)

/-- What a tree is while it is edited: an object, with distinct keys throughout. -/
structure Tree.IsDocument (t : Tree) : Prop where
  isObject : t.isObject = true
  distinct : t.Distinct

theorem Tree.isDocument_obj_nil : (Tree.obj []).IsDocument := ⟨rfl, distinct_obj_nil⟩

/-- The value that the edit writes, unless it takes it from the document, has distinct keys. -/
def Edit.Distinct : Edit → Prop
  | .write _ _ value _ => value.Distinct
  | .transfer .. | .remove .. => True

namespace Edit

/-! ## §1. Reading and detaching -/

theorem makes_read {t : Tree} (segments : List String) (ht : t.Distinct) (here : Pointer) :
    Makes (read here segments t) fun found => ∀ node ∈ found, node.Distinct := by
  induction segments generalizing here t with
  | nil =>
    refine Makes.ok fun node hnode => ?_
    obtain rfl : t = node := Option.some.inj hnode
    exact ht
  | cons segment rest ih =>
    cases t with
    | null | bool | num | str => exact Makes.ok fun node hnode => nomatch hnode
    | obj fields =>
      unfold read
      split
      · next child hchild => exact ih (distinct_of_get? ht hchild) _
      · exact Makes.ok fun node hnode => nomatch hnode
    | arr items =>
      refine (Makes.trivial _).bind fun index _ => ?_
      split
      · next child hchild => exact ih (distinct_of_getElem? ht hchild) _
      · exact Makes.ok fun node hnode => nomatch hnode

/-- What holds of a node that was taken out of a tree, and of the tree without it. -/
structure Detached.Sound (t : Tree) (d : Detached) : Prop where
  node : d.node.Distinct
  remainder : d.remainder.Distinct
  isObject : t.isObject = true → d.remainder.isObject = true

/-- **What is taken out, and what is left.**  Taking the root leaves an object, and everything
    else is taken out of a container, which stays what it is. -/
theorem makes_detach {t : Tree} (segments : List String) (ht : t.Distinct) (here : Pointer) :
    Makes (detach here segments t) fun found => ∀ d ∈ found, d.Sound t := by
  -- one case for the root, two for the last step of a path, and two for a step before it
  fun_induction detach here segments t with
  | case1 here t =>
    refine Makes.ok fun d hd => ?_
    obtain rfl : ⟨t, .obj []⟩ = d := Option.some.inj hd
    exact ⟨ht, distinct_obj_nil, fun _ => rfl⟩
  | case2 here segment fields =>
    refine Makes.ok fun d hd => ?_
    obtain ⟨node, hnode, rfl⟩ := Option.map_eq_some_iff.1 hd
    exact ⟨distinct_of_get? ht hnode, distinct_erase ht segment, fun _ => rfl⟩
  | case3 here segment items =>
    refine (Makes.trivial _).bind fun index _ => Makes.ok fun d hd => ?_
    obtain ⟨node, hnode, rfl⟩ := Option.map_eq_some_iff.1 hd
    exact ⟨distinct_of_getElem? ht hnode, distinct_eraseIdx ht index, fun h => nomatch h⟩
  | case4 here segment rest fields _ child hchild ih =>
    refine (ih (distinct_of_get? ht hchild)).bind fun found hfound => Makes.ok fun d hd => ?_
    obtain ⟨inner, hinner, rfl⟩ := Option.map_eq_some_iff.1 hd
    have hsound : inner.Sound child := hfound inner hinner
    exact ⟨hsound.node, distinct_put ht hsound.remainder, fun _ => rfl⟩
  | case5 | case7 => exact Makes.ok fun d hd => nomatch hd
  | case6 here segment rest items _ ih =>
    refine (Makes.trivial _).bind fun index _ => ?_
    split
    · next child hchild =>
      refine (ih child (distinct_of_getElem? ht hchild)).bind fun found hfound =>
        Makes.ok fun d hd => ?_
      obtain ⟨inner, hinner, rfl⟩ := Option.map_eq_some_iff.1 hd
      have hsound : inner.Sound child := hfound inner hinner
      exact ⟨hsound.node, distinct_set ht hsound.remainder index, fun h => nomatch h⟩
    · exact Makes.ok fun d hd => nomatch hd

/-! ## §2. Writing -/

section Writing

variable {mode : WriteMode} {strict : Bool} {value : Tree} (hvalue : value.Distinct)

include hvalue

theorem distinct_overwrite {old : Tree} (hold : old.Distinct) :
    (overwrite mode old value).Distinct := by
  cases mode with
  | merge => exact distinct_merge hold value hvalue
  | add | replace => exact hvalue

theorem makes_writeChild {t : Tree} (ht : t.Distinct) (created : Option Pointer) (here : Pointer)
    (segment : String) :
    Makes (writeChild mode strict value created here segment t) fun t' =>
      t'.Distinct ∧ t'.isObject = t.isObject := by
  cases t with
  | null | bool | num | str => exact Makes.error _ _
  | obj fields =>
    unfold writeChild
    refine (Makes.trivial _).bind fun _ _ => ?_
    split
    · next old hold =>
      have hnew : (overwrite mode old value).Distinct :=
        distinct_overwrite hvalue (distinct_of_get? ht hold)
      exact Makes.ok ⟨distinct_put ht hnew, rfl⟩
    · exact Makes.ok ⟨distinct_put ht hvalue, rfl⟩
  | arr items =>
    unfold writeChild
    refine (Makes.trivial _).bind fun index _ => (Makes.trivial _).bind fun _ _ => ?_
    split
    · next old hold =>
      have hnew : (overwrite mode old value).Distinct :=
        distinct_overwrite hvalue (distinct_of_getElem? ht hold)
      exact Makes.ok ⟨distinct_set ht hnew index, rfl⟩
    · exact Makes.ok ⟨distinct_concat ht hvalue, rfl⟩

/-- A write below a tree leaves a container of the same kind. -/
theorem makes_writeBelow (rest : List String) :
    ∀ {t : Tree} (_ : t.Distinct) (created : Option Pointer) (here : Pointer) (segment : String),
      Makes (writeBelow mode strict value created here segment rest t) fun t' =>
        t'.Distinct ∧ t'.isObject = t.isObject := by
  induction rest with
  | nil =>
    intro t ht created here segment
    rw [writeBelow]
    exact makes_writeChild hvalue ht created here segment
  | cons next rest ih =>
    intro t ht created here segment
    cases t with
    | null | bool | num | str => exact Makes.error _ _
    | obj fields =>
      unfold writeBelow
      split
      · next child hchild =>
        exact (ih (distinct_of_get? ht hchild) _ _ next).bind fun child hnew =>
          Makes.ok ⟨distinct_put ht hnew.1, rfl⟩
      · -- a parent that is missing is made
        exact (ih distinct_obj_nil _ _ next).bind fun child hnew =>
          Makes.ok ⟨distinct_put ht hnew.1, rfl⟩
    | arr items =>
      unfold writeBelow
      refine (Makes.trivial _).bind fun index _ => ?_
      split
      · next child hchild =>
        exact (ih (distinct_of_getElem? ht hchild) _ _ next).bind fun child hnew =>
          Makes.ok ⟨distinct_set ht hnew.1 index, rfl⟩
      · exact (ih distinct_obj_nil _ _ next).bind fun child hnew =>
          Makes.ok ⟨distinct_concat ht hnew.1, rfl⟩

/-- Only an object can be written to the root. -/
theorem makes_writeRoot {doc : Tree} (hdoc : doc.IsDocument) :
    Makes (writeRoot mode value doc) Tree.IsDocument := by
  unfold writeRoot
  split
  · next hobject =>
    cases mode with
    | add | replace => exact Makes.ok ⟨hobject, hvalue⟩
    | merge =>
      refine Makes.ok ⟨?_, distinct_merge hdoc.distinct value hvalue⟩
      rw [isObject_merge, hobject]
  · exact Makes.error _ _

/-- **A write, at the root or below it, turns a document into a document.** -/
theorem makes_writeAt {doc : Tree} (hdoc : doc.IsDocument) (path : Pointer) :
    Makes (writeAt mode strict path value doc) Tree.IsDocument := by
  unfold writeAt
  split
  · exact makes_writeRoot hvalue hdoc
  · next segment rest _ =>
    exact (makes_writeBelow hvalue rest hdoc.distinct none .root segment).mono fun t' h =>
      ⟨h.2.trans hdoc.isObject, h.1⟩

end Writing

/-! ## §3. Edits -/

variable {strict : Bool} {doc : Tree}

theorem makes_applyWith {edit : Edit} (hedit : edit.Distinct) (hdoc : doc.IsDocument) :
    Makes (edit.applyWith strict doc) Tree.IsDocument := by
  unfold applyWith
  cases edit with
  | write mode path value flag => exact makes_writeAt hedit hdoc path
  | transfer mode source path flag =>
    cases mode with
    | copy =>
      refine (makes_read source.segments hdoc.distinct .root).bind fun found hfound => ?_
      cases found with
      | none => exact Makes.error _ _
      | some node => exact makes_writeAt (hfound node rfl) hdoc path
    | move =>
      refine (makes_detach source.segments hdoc.distinct .root).bind fun found hfound => ?_
      cases found with
      | none => exact Makes.error _ _
      | some d =>
        -- what is left is a document, also when all of it was taken out
        have hsound : d.Sound doc := hfound d rfl
        exact makes_writeAt hsound.node ⟨hsound.isObject hdoc.isObject, hsound.remainder⟩ path
  | remove path flag =>
    dsimp only
    split
    · exact Makes.ok Tree.isDocument_obj_nil
    · refine (makes_detach path.segments hdoc.distinct .root).bind fun found hfound => ?_
      cases found with
      | some d =>
        have hsound : d.Sound doc := hfound d rfl
        exact Makes.ok ⟨hsound.isObject hdoc.isObject, hsound.remainder⟩
      | none =>
        dsimp only
        split
        · exact Makes.error _ _
        · exact Makes.ok hdoc

/-- **Edits turn documents into documents**, whatever each of them does. -/
theorem makes_applyAll {edits : List Edit} (hedits : ∀ edit ∈ edits, edit.Distinct)
    (hdoc : doc.IsDocument) : Makes (applyAll strict edits doc) Tree.IsDocument := by
  induction edits generalizing doc with
  | nil => exact Makes.ok hdoc
  | cons edit rest ih =>
    obtain ⟨hedit, hrest⟩ := List.forall_mem_cons.1 hedits
    exact (makes_applyWith hedit hdoc).bind fun next hnext => ih hrest hnext

end Edit

end DesignTokens
