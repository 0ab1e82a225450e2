/-
  DesignTokens.Proofs.Edit.Detach — taking a node out of a tree, and reading it.

  Reading and detaching walk to a place on their own, and each has its own way with the root,
  with the last step of a path and with positions of arrays.  Still they agree: what is taken
  out is what is read, nothing is found at the same places, and a walk fails at the same
  segment.  So a copy and a move refuse the same sources, and a move can be told by what the
  other edits do: it reads, removes and adds.

  Main facts:
    * `map_node_detach` — what is taken out is what is read, failures included.
    * `unplaced_of_read` — reading fails only at segments that are no position of their array.
    * `removal_of_present` — a node that can be read can be taken out and be removed.
    * `move_eq_remove_add` — a move by its source: refused, missing, or removed and added.
-/
import DesignTokens.Edit.Apply
import DesignTokens.Proofs.Outcome

namespace DesignTokens

/-- The failures of a segment that is no position of the array that it meets. -/
def EditError.Unplaced : EditError → Prop
  | .invalidIndex .. | .indexOutOfRange .. => True
  | _ => False

namespace Edit

/-! ## §1. Reading fails at positions only -/

theorem unplaced_of_position {place : Pointer} {segment : String} {length : Nat}
    {fault : EditError} (h : position place segment length = .error fault) : fault.Unplaced := by
  unfold position at h
  split at h
  · cases h
  · split at h
    · cases h
      trivial
    · split at h
      · cases h
        trivial
      · split at h
        · cases h
          trivial
        · cases h

/-- **Reading fails only at segments that are no position of their array.**  A key that is not
    there and a scalar on the way are no failures. -/
theorem unplaced_of_read {segments : List String} {here : Pointer} {t : Tree}
    {fault : EditError} (h : read here segments t = .error fault) : fault.Unplaced := by
  induction segments generalizing here t with
  | nil => cases h
  | cons segment rest ih =>
    cases t with
    | null | bool | num | str => cases h
    | obj fields =>
      unfold read at h
      split at h
      · exact ih h
      · cases h
    | arr items =>
      unfold read at h
      rcases bind_eq_error_iff.1 h with hindex | ⟨index, -, hitem⟩
      · exact unplaced_of_position hindex
      · split at hitem
        · exact ih hitem
        · cases hitem

/-! ## §2. Detaching finds what reading finds -/

/-- What is left of a child is hung into its parent, and the node stays what it is. -/
theorem map_node_hung (step : Except EditError (Option Detached)) (hang : Tree → Tree) :
    (step >>= fun found => pure (found.map fun d => { d with remainder := hang d.remainder })).map
        (Option.map Detached.node) = step.map (Option.map Detached.node) := by
  cases step with
  | error e => rfl
  | ok found =>
    cases found with
    | none => rfl
    | some d => rfl

/-- **What is taken out is what is read**, and both walks find nothing or fail alike. -/
theorem map_node_detach (here : Pointer) (segments : List String) (t : Tree) :
    (detach here segments t).map (Option.map Detached.node) = read here segments t := by
  -- the last step of a path is made by itself, so each container is met twice
  induction segments generalizing here t with
  | nil => rfl
  | cons segment rest ih =>
    cases t with
    | null | bool | num | str =>
      cases rest with
      | nil => rfl
      | cons next rest => rfl
    | obj fields =>
      unfold read
      cases rest with
      | nil =>
        unfold detach
        cases Entries.get? segment fields with
        | none => rfl
        | some child => rfl
      | cons next rest =>
        unfold detach
        cases Entries.get? segment fields with
        | none => rfl
        | some child =>
          exact (map_node_hung _ fun r => .obj (Entries.put segment r fields)).trans (ih _ child)
    | arr items =>
      unfold read
      cases rest with
      | nil =>
        unfold detach
        rw [map_bind]
        refine congrArg _ (funext fun index => ?_)
        cases items[index]? with
        | none => rfl
        | some child => rfl
      | cons next rest =>
        unfold detach
        rw [map_bind]
        refine congrArg _ (funext fun index => ?_)
        cases items[index]? with
        | none => rfl
        | some child =>
          exact (map_node_hung _ fun r => .arr (items.set index r)).trans (ih _ child)

/-! ## §3. Sources -/

section Sources

variable {doc node : Tree} {path : Pointer} {strict : Bool} {flag : Option Bool}

theorem map_node_take (doc : Tree) (path : Pointer) :
    (take doc path).map (Option.map Detached.node) = get doc path :=
  map_node_detach .root path.segments doc

theorem take_of_fault {fault : EditError} (h : get doc path = .error fault) :
    take doc path = .error fault :=
  map_eq_error_iff.1 ((map_node_take doc path).trans h)

theorem take_of_absent (h : get doc path = .ok none) : take doc path = .ok none := by
  obtain ⟨found, htake, hnode⟩ := map_eq_ok_iff.1 ((map_node_take doc path).trans h)
  rw [htake, Option.map_eq_none_iff.1 hnode]

theorem take_of_present (h : get doc path = .ok (some node)) :
    ∃ rest, take doc path = .ok (some ⟨node, rest⟩) := by
  obtain ⟨found, htake, hnode⟩ := map_eq_ok_iff.1 ((map_node_take doc path).trans h)
  obtain ⟨d, rfl, rfl⟩ := Option.map_eq_some_iff.1 hnode
  exact ⟨d.remainder, htake⟩

/-- What is left when a node is taken out is what its removal leaves, at the root too. -/
theorem remove_of_take {found : Detached} (h : take doc path = .ok (some found)) :
    (Edit.remove path flag).applyWith strict doc = .ok found.remainder := by
  unfold applyWith
  dsimp only
  split
  · next hroot =>
    have hsegments : path.segments = [] := List.isEmpty_iff.1 hroot
    unfold take at h
    rw [hsegments] at h
    cases h
    rfl
  · rw [h]
    rfl

/-- **A node that can be read can be taken out and be removed**, and both leave the same. -/
theorem removal_of_present (h : get doc path = .ok (some node)) :
    ∃ rest, take doc path = .ok (some ⟨node, rest⟩) ∧
      ∀ strict flag, (Edit.remove path flag).applyWith strict doc = .ok rest := by
  obtain ⟨rest, htake⟩ := take_of_present h
  exact ⟨rest, htake, fun strict flag => remove_of_take htake⟩

end Sources

/-! ## §4. A move told by the other edits -/

/-- **A move is a read, a removal and an `add`.**  A source that cannot be read is refused with
    the failure of reading it, a source where nothing is is missing, and a copy refuses the
    same sources in the same words.  Any other source is removed, which is possible, and what
    was read there is added to what is left: the target of a move is looked for after its
    source is gone.  The walks that read and that detach agree throughout. -/
theorem move_eq_remove_add (source path : Pointer) (flag : Option Bool) (strictByDefault : Bool)
    (doc : Tree) :
    (∀ fault, get doc source = .error fault →
      fault.Unplaced ∧
        ∀ mode, (Edit.transfer mode source path flag).apply strictByDefault doc = .error fault) ∧
    (get doc source = .ok none →
      ∀ mode, (Edit.transfer mode source path flag).apply strictByDefault doc
        = .error (.sourceMissing source)) ∧
    (∀ node, get doc source = .ok (some node) →
      (∃ rest, (Edit.remove source (some false)).apply strictByDefault doc = .ok rest ∧
        (Edit.transfer .move source path flag).apply strictByDefault doc
          = (Edit.write .add path node flag).apply strictByDefault rest) ∧
      (Edit.transfer .copy source path flag).apply strictByDefault doc
        = (Edit.write .add path node flag).apply strictByDefault doc) ∧
    (take doc source).map (Option.map Detached.node) = get doc source := by
  unfold apply applyWith
  refine ⟨?refused, ?missing, ?present, map_node_take doc source⟩
  case refused =>
    intro fault hfault
    refine ⟨unplaced_of_read hfault, fun mode => ?_⟩
    cases mode with
    | copy =>
      dsimp only
      rw [hfault]
      rfl
    | move =>
      dsimp only
      rw [take_of_fault hfault]
      rfl
  case missing =>
    intro habsent mode
    cases mode with
    | copy =>
      dsimp only
      rw [habsent]
      rfl
    | move =>
      dsimp only
      rw [take_of_absent habsent]
      rfl
  case present =>
    intro node hpresent
    obtain ⟨rest, htake, hremove⟩ := removal_of_present hpresent
    refine ⟨⟨rest, hremove _ (some false), ?_⟩, ?_⟩
    · dsimp only
      rw [htake]
      rfl
    · dsimp only
      rw [hpresent]
      rfl

/-- A shelf with two books. -/
def shelf : Tree := .obj [("books", .arr [.str "atlas", .obj [("title", .str "lexicon")]])]

/-- The first book is moved into the one behind it, which by then has become the first, and
    this even strictly.  A third book cannot be copied or moved, since none is there, nor can
    a fourth, since that is no position. -/
theorem move_eq_remove_add_shelf :
    (Edit.transfer .move ⟨["books", "0"]⟩ ⟨["books", "0", "inlay"]⟩ none).apply true shelf
        = .ok (.obj [("books", .arr
            [.obj [("title", .str "lexicon"), ("inlay", .str "atlas")]])]) ∧
      (∀ mode, (Edit.transfer mode ⟨["books", "2"]⟩ .root none).apply false shelf
        = .error (.sourceMissing ⟨["books", "2"]⟩)) ∧
      ∀ mode, (Edit.transfer mode ⟨["books", "3"]⟩ .root none).apply false shelf
        = .error (.indexOutOfRange ⟨["books", "3"]⟩ 3 2) := by
  have hatlas : get shelf ⟨["books", "0"]⟩ = .ok (some (.str "atlas")) := rfl
  have hthird : get shelf ⟨["books", "2"]⟩ = .ok none := rfl
  have hfourth : get shelf ⟨["books", "3"]⟩
      = .error (.indexOutOfRange ⟨["books", "3"]⟩ 3 2) := rfl
  refine ⟨?_, ?_, ?_⟩
  · obtain ⟨⟨rest, hremove, hmove⟩, -⟩ :=
      (move_eq_remove_add ⟨["books", "0"]⟩ ⟨["books", "0", "inlay"]⟩ none true shelf).2.2.1
        _ hatlas
    have hrest : (Edit.remove ⟨["books", "0"]⟩ (some false)).apply true shelf
        = .ok (.obj [("books", .arr [.obj [("title", .str "lexicon")]])]) := rfl
    obtain rfl : _ = rest := Except.ok.inj (hrest.symm.trans hremove)
    rw [hmove]
    rfl
  · exact (move_eq_remove_add _ _ none false shelf).2.1 hthird
  · exact ((move_eq_remove_add _ _ none false shelf).1 _ hfourth).2

end Edit

end DesignTokens
