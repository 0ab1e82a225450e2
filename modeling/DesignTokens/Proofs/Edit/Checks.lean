/-
  DesignTokens.Proofs.Edit.Checks — what a strict edit asks of the document.

  The checks of a write are made at the end of its walk, when parents that were missing have
  been made already; what they know of the document is whether the walk had to make a parent
  and whether it ends at something.  Here they are told by reading the document as it was before
  the edit: a strict edit is the lenient one behind a guard, and the guard is the table of
  strictness, an `add` needing its parent and nothing at its place, and so on.

  Main facts:
    * `Guarded.bind`, `Guarded.after` — a guard is kept by the steps around the guarded one.
    * `guarded_writeBelow` — a strict write is the lenient one behind the guard of its mode.
    * `strict_table` — the table of strictness, for edits of every kind.
-/
import DesignTokens.Proofs.Edit.Detach

namespace DesignTokens

/-- The path one segment further up. -/
def Pointer.parent (p : Pointer) : Pointer := ⟨p.segments.dropLast⟩

/-! ## §1. Runs behind a guard -/

section Guarded

variable {ε α β : Type} {cond : Prop}

/-- The first run makes what the second one makes, provided that a condition holds. -/
def Guarded (cond : Prop) (strict lenient : Except ε α) : Prop :=
  ∀ a, strict = .ok a ↔ lenient = .ok a ∧ cond

theorem Guarded.error (e e' : ε) : Guarded cond (.error e : Except ε α) (.error e') :=
  fun _ => iff_of_false (fun h => nomatch h) (fun h => nomatch h.1)

theorem Guarded.of_true (run : Except ε α) (h : cond) : Guarded cond run run :=
  fun _ => (and_iff_left h).symm

theorem Guarded.of_false {e : ε} {lenient : Except ε α} (h : ¬ cond) :
    Guarded cond (.error e) lenient :=
  fun _ => iff_of_false (fun h => nomatch h) (fun hand => h hand.2)

theorem Guarded.congr {cond' : Prop} {strict lenient : Except ε α}
    (h : Guarded cond strict lenient) (hcond : cond ↔ cond') : Guarded cond' strict lenient :=
  fun a => (h a).trans (and_congr_right fun _ => hcond)

/-- A step that follows a guarded one is behind its guard. -/
theorem Guarded.bind {strict lenient : Except ε α} (h : Guarded cond strict lenient)
    (next : α → Except ε β) : Guarded cond (strict >>= next) (lenient >>= next) := by
  intro b
  rw [bind_eq_ok_iff, bind_eq_ok_iff, ← exists_and_right]
  refine exists_congr fun a => ?_
  rw [h a, and_right_comm]

/-- A step in front of a guarded one is made first, and its result may be what is guarded. -/
theorem Guarded.after {step : Except ε α} {strict lenient : α → Except ε β}
    (h : ∀ a, step = .ok a → Guarded cond (strict a) (lenient a)) :
    Guarded cond (step >>= strict) (step >>= lenient) := by
  intro b
  rw [bind_eq_ok_iff, bind_eq_ok_iff, ← exists_and_right]
  refine exists_congr fun a => ?_
  rw [and_assoc]
  exact and_congr_right fun hstep => h a hstep b

end Guarded

namespace Edit

/-! ## §2. Reading step by step -/

section Reading

variable {here : Pointer} {segment : String} {rest : List String}
  {fields : List (String × Tree)} {items : List Tree} {index : Nat} {child : Tree}

theorem read_of_get? (h : Entries.get? segment fields = some child) :
    read here (segment :: rest) (.obj fields) = read (here.child segment) rest child := by
  rw [read, h]

theorem read_of_get?_none (h : Entries.get? segment fields = none) :
    read here (segment :: rest) (.obj fields) = .ok none := by
  rw [read, h]

theorem read_of_item (hindex : position (here.child segment) segment items.length = .ok index)
    (h : items[index]? = some child) :
    read here (segment :: rest) (.arr items) = read (here.child segment) rest child := by
  rw [read, hindex]
  simp only [bind, Except.bind]
  rw [h]

theorem read_of_item_none
    (hindex : position (here.child segment) segment items.length = .ok index)
    (h : items[index]? = none) : read here (segment :: rest) (.arr items) = .ok none := by
  rw [read, hindex]
  simp only [bind, Except.bind]
  rw [h]

/-- The last step of a walk finds what the container holds. -/
theorem read_last_obj :
    read here [segment] (.obj fields) = .ok (Entries.get? segment fields) := by
  cases h : Entries.get? segment fields with
  | none => exact read_of_get?_none h
  | some child => exact read_of_get? h

theorem read_last_arr
    (hindex : position (here.child segment) segment items.length = .ok index) :
    read here [segment] (.arr items) = .ok items[index]? := by
  cases h : items[index]? with
  | none => exact read_of_item_none hindex h
  | some child => exact read_of_item hindex h

end Reading

/-! ## §3. The guard of a write -/

/-- What a strict write needs to know: no parent was made so far, what its parent is and what
    stands at its place, both as reading finds them. -/
def Cleared (mode : WriteMode) (created : Option Pointer)
    (parent place : Except EditError (Option Tree)) : Prop :=
  match mode with
  | .add => created = none ∧ (∃ node, parent = .ok (some node)) ∧ place = .ok none
  | .merge | .replace => ∃ node, place = .ok (some node)

section Writing

variable {mode : WriteMode} {created : Option Pointer} {value : Tree} {here : Pointer}
  {segment : String}

theorem not_cleared_of_missing : ¬ Cleared mode created (.ok none) (.ok none) := by
  cases mode with
  | add =>
    rintro ⟨-, ⟨node, hnode⟩, -⟩
    cases hnode
  | merge | replace =>
    rintro ⟨node, hnode⟩
    cases hnode

theorem not_cleared_of_created {place : Pointer} {parent : Except EditError (Option Tree)} :
    ¬ Cleared mode (created <|> some place) parent (.ok none) := by
  cases mode with
  | add =>
    rintro ⟨hnone, -⟩
    cases created with
    | none => cases hnone
    | some first => cases hnone
  | merge | replace =>
    rintro ⟨node, hnode⟩
    cases hnode

/-- The checks look at the place of a write, whose parent has been reached. -/
theorem guarded_check (path : Pointer) (parent : Tree) (old : Option Tree) :
    Guarded (Cleared mode created (.ok (some parent)) (.ok old))
      (check mode true path created old.isSome) (check mode false path created old.isSome) := by
  cases mode with
  | add =>
    cases created with
    | some place => exact Guarded.of_false fun h => nomatch h.1
    | none =>
      cases old with
      | some node => exact Guarded.of_false fun h => nomatch h.2.2
      | none => exact Guarded.of_true _ ⟨rfl, ⟨parent, rfl⟩, rfl⟩
  | merge | replace =>
    cases old with
    | some node => exact Guarded.of_true _ ⟨node, rfl⟩
    | none => exact Guarded.of_false fun ⟨node, hnode⟩ => nomatch hnode

theorem guarded_writeChild (t : Tree) :
    Guarded (Cleared mode created (.ok (some t)) (read here [segment] t))
      (writeChild mode true value created here segment t)
      (writeChild mode false value created here segment t) := by
  cases t with
  | null | bool | num | str => exact Guarded.error _ _
  | obj fields =>
    rw [read_last_obj]
    unfold writeChild
    exact (guarded_check _ _ _).bind _
  | arr items =>
    unfold writeChild
    refine Guarded.after fun index hindex => ?_
    rw [read_last_arr hindex]
    exact (guarded_check _ _ _).bind _

/-- **A strict write is the lenient one behind the guard of its mode.**  Once a parent has been
    made, all that the walk meets further down is new, and the guard stays shut; the document
    as it was says the same, since nothing can be read there. -/
theorem guarded_writeBelow (rest : List String) :
    ∀ (created : Option Pointer) (here : Pointer) (segment : String) (t : Tree),
      Guarded (Cleared mode created (read here (segment :: rest).dropLast t)
          (read here (segment :: rest) t))
        (writeBelow mode true value created here segment rest t)
        (writeBelow mode false value created here segment rest t) := by
  induction rest with
  | nil =>
    intro created here segment t
    rw [writeBelow, writeBelow]
    exact guarded_writeChild t
  | cons next rest ih =>
    intro created here segment t
    rw [List.dropLast_cons_cons]
    -- where a parent is missing the guard is shut: there, and below the parent that is made
    have hmade : Guarded (Cleared mode created (.ok none) (.ok none))
        (writeBelow mode true value (created <|> some (here.child segment)) (here.child segment)
          next rest (.obj []))
        (writeBelow mode false value (created <|> some (here.child segment)) (here.child segment)
          next rest (.obj [])) := by
      refine (ih (created <|> some (here.child segment)) _ _ _).congr ?_
      exact iff_of_false not_cleared_of_created not_cleared_of_missing
    cases t with
    | null | bool | num | str => exact Guarded.error _ _
    | obj fields =>
      unfold writeBelow
      cases hold : Entries.get? segment fields with
      | some child =>
        rw [read_of_get? hold, read_of_get? hold]
        exact (ih _ _ _ _).bind _
      | none =>
        rw [read_of_get?_none hold, read_of_get?_none hold]
        exact hmade.bind _
    | arr items =>
      unfold writeBelow
      refine Guarded.after fun index hindex => ?_
      cases hold : items[index]? with
      | some child =>
        rw [read_of_item hindex hold, read_of_item hindex hold]
        exact (ih _ _ _ _).bind _
      | none =>
        rw [read_of_item_none hindex hold, read_of_item_none hindex hold]
        exact hmade.bind _

end Writing

/-! ## §4. The table of strictness -/

/-- Something stands at a path of the document. -/
def Occupied (path : Pointer) (doc : Tree) : Prop := ∃ node, get doc path = .ok (some node)

/-- Nothing stands at a path of the document, but its parent does. -/
def Vacant (path : Pointer) (doc : Tree) : Prop :=
  Occupied path.parent doc ∧ get doc path = .ok none

/-- What an edit needs of the document to be made strictly, beyond what it needs anyway.  A move
    looks for its target in what the removal of its source leaves. -/
def Demands : Edit → Tree → Prop
  | .write .add path _ _, doc => Vacant path doc
  | .write .merge path _ _, doc | .write .replace path _ _, doc => Occupied path doc
  | .transfer .copy _ path _, doc => Vacant path doc
  | .transfer .move source path _, doc =>
    ∃ rest, (Edit.remove source none).applyWith false doc = .ok rest ∧ Vacant path rest
  | .remove path _, doc => Occupied path doc

variable {doc : Tree} {path : Pointer}

theorem guarded_writeAt {mode : WriteMode} {value : Tree} (hpath : path.isRoot = false) :
    Guarded (Cleared mode none (get doc path.parent) (get doc path))
      (writeAt mode true path value doc) (writeAt mode false path value doc) := by
  obtain ⟨segments⟩ := path
  cases segments with
  | nil => cases hpath
  | cons segment rest => exact guarded_writeBelow rest none .root segment doc

/-- An `add` is guarded alike whether its value is given or was found in a document. -/
theorem guarded_add {value : Tree} (hpath : path.isRoot = false) :
    Guarded (Vacant path doc) (writeAt .add true path value doc)
      (writeAt .add false path value doc) :=
  (guarded_writeAt hpath).congr (and_iff_right rfl)

theorem guarded_copy {source : Pointer} {flag : Option Bool} (hpath : path.isRoot = false) :
    Guarded (Vacant path doc) ((Edit.transfer .copy source path flag).applyWith true doc)
      ((Edit.transfer .copy source path flag).applyWith false doc) := by
  unfold applyWith
  refine Guarded.after fun found _ => ?_
  cases found with
  | none => exact Guarded.error _ _
  | some node => exact guarded_add hpath

/-- A move is guarded at what is left when its source has been taken out, which is what a
    removal of the source leaves. -/
theorem guarded_move {source : Pointer} {flag : Option Bool} (hpath : path.isRoot = false) :
    Guarded (∃ rest, (Edit.remove source none).applyWith false doc = .ok rest ∧ Vacant path rest)
      ((Edit.transfer .move source path flag).applyWith true doc)
      ((Edit.transfer .move source path flag).applyWith false doc) := by
  unfold applyWith
  refine Guarded.after fun found htake => ?_
  cases found with
  | none => exact Guarded.error _ _
  | some found =>
    have hremove : (Edit.remove source none).applyWith false doc = .ok found.remainder :=
      remove_of_take htake
    refine (guarded_add hpath).congr ⟨fun h => ⟨_, hremove, h⟩, ?_⟩
    rintro ⟨rest, hrest, hvacant⟩
    obtain rfl : found.remainder = rest := Except.ok.inj (hremove.symm.trans hrest)
    exact hvacant

theorem guarded_remove {flag : Option Bool} (hpath : path.isRoot = false) :
    Guarded (Occupied path doc) ((Edit.remove path flag).applyWith true doc)
      ((Edit.remove path flag).applyWith false doc) := by
  have hroot : ¬ path.isRoot = true := Bool.eq_false_iff.1 hpath
  unfold applyWith
  dsimp only
  rw [if_neg hroot, if_neg hroot]
  refine Guarded.after fun found htake => ?_
  have hget : get doc path = .ok (found.map Detached.node) := by
    rw [← map_node_take, htake]
    rfl
  cases found with
  | some found => exact Guarded.of_true _ ⟨found.node, hget⟩
  | none =>
    refine Guarded.of_false ?_
    rintro ⟨node, hnode⟩
    cases hget.symm.trans hnode

/-- **The table of strictness.**  Away from the root an edit can be made strictly exactly when
    it can be made without strictness and the document grants what the table asks of it; what
    it makes is the same then. -/
theorem strict_table {edit : Edit} {doc' : Tree} (hpath : edit.path.isRoot = false) :
    edit.applyWith true doc = .ok doc' ↔
      edit.applyWith false doc = .ok doc' ∧ edit.Demands doc := by
  cases edit with
  | write mode path value flag =>
    cases mode with
    | add => exact guarded_add hpath doc'
    | merge | replace => exact guarded_writeAt hpath doc'
  | transfer mode source path flag =>
    cases mode with
    | copy => exact guarded_copy hpath doc'
    | move => exact guarded_move hpath doc'
  | remove path flag => exact guarded_remove hpath doc'

/-- The first book of the shelf can be moved strictly to the second place, which is free once
    it has been taken out; it cannot be copied there strictly, nor can anything be added
    strictly below a place that is not there yet. -/
theorem strict_table_shelf :
    (Edit.transfer .move ⟨["books", "0"]⟩ ⟨["books", "1"]⟩ none).applyWith true shelf
        = .ok (.obj [("books", .arr [.obj [("title", .str "lexicon")], .str "atlas"])]) ∧
      (∀ doc', (Edit.transfer .copy ⟨["books", "0"]⟩ ⟨["books", "1"]⟩ none).applyWith true shelf
        ≠ .ok doc') ∧
      ∀ doc', (Edit.write .add ⟨["books", "-", "title"]⟩ (.str "grammar") none).applyWith true
        shelf ≠ .ok doc' := by
  refine ⟨?_, ?_, ?_⟩
  · refine (strict_table rfl).2 ⟨rfl, .obj [("books", .arr [.obj [("title", .str "lexicon")]])],
      rfl, ⟨?_, rfl⟩⟩
    exact ⟨.arr [.obj [("title", .str "lexicon")]], rfl⟩
  · intro doc' hcopy
    have hvacant : Vacant ⟨["books", "1"]⟩ shelf := ((strict_table rfl).1 hcopy).2
    cases hvacant.2
  · intro doc' hadd
    have hvacant : Vacant ⟨["books", "-", "title"]⟩ shelf := ((strict_table rfl).1 hadd).2
    obtain ⟨node, hnode⟩ := hvacant.1
    cases hnode

end Edit

end DesignTokens
