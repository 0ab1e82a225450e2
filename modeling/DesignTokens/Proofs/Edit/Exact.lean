/-
  DesignTokens.Proofs.Edit.Exact — paths that name one place.

  A dash in front of an array names the place behind the last item, which is another place as
  soon as something has been put there.  Along any other path a write that checks nothing and
  `Written` are the same, in both directions.  So whatever is shown of written trees, which are
  compared without a walk and without failures, is shown of writes and of their success.

  Main facts:
    * `anchored_of_not_mem`, `anchored_of_at?`, `anchored_of_parent` — paths without a dash,
      paths at which something stands, paths with a parent that do not end in a dash.
    * `writeAt_eq_ok_iff` — along such paths a write without checks is made exactly as
      `Written` says.
-/
import DesignTokens.Proofs.Edit.Frame

namespace DesignTokens

/-! ## §1. Paths that are anchored as they stand -/

namespace Tree

variable {segment : String} {segments : List String} {t : Tree}

theorem anchor_of_ne (h : segment ≠ "-") (t : Tree) : t.anchor segment = segment := by
  cases t with
  | null | bool | num | str | obj => rfl
  | arr items => exact if_neg h

/-- A segment that names a child is no dash in front of an array. -/
theorem anchor_of_child? {c : Tree} (h : t.child? segment = some c) :
    t.anchor segment = segment := by
  cases t with
  | null | bool | num | str | obj => rfl
  | arr items =>
    refine anchor_of_ne ?_ _
    rintro rfl
    rw [child?_dash] at h
    cases h

theorem anchored_of_not_mem (h : "-" ∉ segments) (t : Tree) : anchored segments t = segments := by
  induction segments generalizing t with
  | nil => rfl
  | cons segment rest ih =>
    have hne : segment ≠ "-" := Ne.symm (List.ne_of_not_mem_cons h)
    rw [anchored_cons, anchor_of_ne hne, ih (List.not_mem_of_not_mem_cons h)]

theorem anchored_of_at? {c : Tree} (h : t.at? segments = some c) :
    anchored segments t = segments := by
  induction segments generalizing t with
  | nil => rfl
  | cons segment rest ih =>
    rw [at?_cons] at h
    obtain ⟨child, hchild, hrest⟩ := Option.bind_eq_some_iff.1 h
    rw [anchored_cons, anchor_of_child? hchild, hchild, Option.getD_some, ih hrest]

theorem anchored_of_parent {parent : Tree} (h : t.at? segments.dropLast = some parent)
    (hlast : segments.getLast? ≠ some "-") : anchored segments t = segments := by
  induction segments generalizing t with
  | nil => rfl
  | cons segment rest ih =>
    cases rest with
    | nil =>
      have hne : segment ≠ "-" := fun heq => hlast (congrArg some heq)
      rw [anchored_cons, anchor_of_ne hne]
      rfl
    | cons next rest =>
      rw [List.dropLast_cons_cons, at?_cons] at h
      rw [List.getLast?_cons_cons] at hlast
      obtain ⟨child, hchild, hrest⟩ := Option.bind_eq_some_iff.1 h
      rw [anchored_cons, anchor_of_child? hchild, hchild, Option.getD_some, ih hrest hlast]

end Tree

namespace Edit

variable {mode : WriteMode} {value : Tree} {created : Option Pointer} {here : Pointer}
  {segment : String} {rest : List String} {t t' : Tree}

/-- Such a path appends to no array by a dash. -/
theorem roomy_of_anchored {segments : List String} (h : Tree.anchored segments t = segments) :
    Roomy segments t := by
  induction segments generalizing t with
  | nil =>
    intro front items hfront
    cases front with
    | nil => cases List.prefix_nil.1 hfront
    | cons first front => cases List.prefix_nil.1 hfront
  | cons segment rest ih =>
    rw [Tree.anchored_cons] at h
    obtain ⟨hsegment, hrest⟩ := List.cons.inj h
    intro front items hfront hitems
    cases front with
    | nil =>
      -- an array is met here, and its length is no dash
      obtain ⟨rfl, -⟩ := List.cons_prefix_cons.1 hfront
      obtain rfl : t = Tree.arr items := Option.some.inj hitems
      exact absurd hsegment (toString_ne_dash items.length)
    | cons first front =>
      obtain ⟨rfl, hbelow⟩ := List.cons_prefix_cons.1 hfront
      rw [Tree.at?_cons] at hitems
      obtain ⟨child, hchild, hbehind⟩ := Option.bind_eq_some_iff.1 hitems
      rw [hchild, Option.getD_some] at hrest
      exact ih hrest front items hbelow hbehind

/-! ## §2. Writes without checks -/

theorem writeChild_of_hung (h : Hung (left mode value (t.child? segment)) segment t t') :
    writeChild mode false value created here segment t = .ok t' := by
  cases t with
  | null | bool | num | str => cases h
  | obj fields =>
    obtain rfl := hung_obj_iff.1 h
    unfold writeChild Tree.child?
    dsimp only
    cases Entries.get? segment fields with
    | none => rfl
    | some old => rfl
  | arr items =>
    obtain ⟨index, rfl, bound, hcase⟩ := hung_arr_iff.1 h
    have hindex : position (here.child (toString index)) (toString index) items.length
        = .ok index := position_toString bound (by omega)
    rw [Tree.child?_of_position hindex] at hcase
    unfold writeChild
    refine bind_eq_ok_iff.2 ⟨index, hindex, bind_eq_ok_iff.2 ⟨(), rfl, ?_⟩⟩
    rcases hcase with ⟨inside, rfl⟩ | ⟨rfl, rfl⟩
    · rw [List.getElem?_eq_getElem inside]
      rfl
    · rw [List.getElem?_eq_none (Nat.le_refl _)]
      rfl

/-- **What is written can be written by a walk without checks**, which does not fail. -/
theorem writeBelow_of_written (h : Written (left mode value) (segment :: rest) t t') :
    writeBelow mode false value created here segment rest t = .ok t' := by
  induction rest generalizing created here segment t t' with
  | nil =>
    rw [writeBelow]
    cases h with
    | last hung => exact writeChild_of_hung hung
    | deeper hchild hung => exact absurd rfl (ne_nil_of_written hchild)
  | cons next rest ih =>
    cases h with
    | @deeper _ _ _ _ child hchild hung =>
      cases t with
      | null | bool | num | str => cases hung
      | obj fields =>
        obtain rfl := hung_obj_iff.1 hung
        unfold writeBelow
        unfold Tree.child? at hchild
        dsimp only at hchild
        cases hold : Entries.get? segment fields with
        | none =>
          rw [hold] at hchild
          exact bind_eq_ok_iff.2 ⟨child, ih hchild, rfl⟩
        | some old =>
          rw [hold] at hchild
          exact bind_eq_ok_iff.2 ⟨child, ih hchild, rfl⟩
      | arr items =>
        obtain ⟨index, rfl, bound, hcase⟩ := hung_arr_iff.1 hung
        have hindex : position (here.child (toString index)) (toString index) items.length
            = .ok index := position_toString bound (by omega)
        rw [Tree.child?_of_position hindex] at hchild
        unfold writeBelow
        refine bind_eq_ok_iff.2 ⟨index, hindex, ?_⟩
        rcases hcase with ⟨inside, rfl⟩ | ⟨rfl, rfl⟩
        · rw [List.getElem?_eq_getElem inside] at hchild ⊢
          exact bind_eq_ok_iff.2 ⟨child, ih hchild, rfl⟩
        · rw [List.getElem?_eq_none (Nat.le_refl _)] at hchild ⊢
          exact bind_eq_ok_iff.2 ⟨child, ih hchild, rfl⟩

/-- **A write without checks is made exactly as `Written` says**, below the root and along a
    path that is anchored as it stands. -/
theorem writeAt_eq_ok_iff {path : Pointer} {doc doc' : Tree} (hpath : path.isRoot = false)
    (hanchored : Tree.anchored path.segments doc = path.segments) :
    writeAt mode false path value doc = .ok doc' ↔
      Written (left mode value) path.segments doc doc' := by
  obtain ⟨segments⟩ := path
  cases segments with
  | nil => cases hpath
  | cons segment rest =>
    constructor
    · intro h
      have hwritten : Written (left mode value) (Tree.anchored (segment :: rest) doc) doc doc' :=
        written_of_writeBelow h (roomy_of_anchored hanchored)
      rwa [hanchored] at hwritten
    · exact writeBelow_of_written

end Edit

end DesignTokens
