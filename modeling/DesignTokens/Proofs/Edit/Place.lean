/-
  DesignTokens.Proofs.Edit.Place — the places of a tree, and hanging a tree in one of them.

  Reading and writing both walk a path segment by segment, and both ask an array which item a
  segment names.  `child?` is the one step that they share: it forgets where the walk stands
  and why it fails.  A tree that is hung under a segment is what the next step with that
  segment finds, and no other segment notices.

  Main facts:
    * `read_eq_ok_some_iff` — reading finds what lies at a place, whatever the walk so far.
    * `child?_of_hung`, `child?_of_hung_of_ne` — what hanging a tree changes and leaves alone.
    * `keys_of_hung` — the keys of an object in which a tree is hung.
    * `hung_over`, `hung_back`, `hung_comm` — trees that are hung after one another.
-/
import DesignTokens.Edit.Apply
import DesignTokens.Proofs.Edit.Position

namespace DesignTokens

open Edit (position positionBound position_eq_ok_iff toString_ne_dash eq_of_toString_eq)

namespace Tree

/-! ## §1. Children -/

/-- The child of a tree that a segment names. -/
def child? (segment : String) : Tree → Option Tree
  | .obj fields => Entries.get? segment fields
  | .arr items =>
    match position .root segment items.length with
    | .ok index => items[index]?
    | .error _ => none
  | _ => none

/-- A step into an array asks for the position of the segment, from wherever it is made. -/
theorem child?_of_position {place : Pointer} {segment : String} {items : List Tree}
    {index : Nat} (h : position place segment items.length = .ok index) :
    (Tree.arr items).child? segment = items[index]? := by
  have hindex : position .root segment items.length = .ok index :=
    position_eq_ok_iff.2 (position_eq_ok_iff.1 h)
  unfold child?
  dsimp only
  rw [hindex]

theorem child?_of_not_position {place : Pointer} {segment : String} {items : List Tree}
    (h : ∀ index, position place segment items.length ≠ .ok index) :
    (Tree.arr items).child? segment = none := by
  unfold child?
  dsimp only
  split
  · next index hindex =>
    exact absurd (position_eq_ok_iff.2 (position_eq_ok_iff.1 hindex)) (h index)
  · rfl

/-- The children of an array are its items, under the numerals of their positions. -/
theorem child?_arr_eq_some_iff {segment : String} {items : List Tree} {c : Tree} :
    (Tree.arr items).child? segment = some c ↔
      ∃ index, segment = toString index ∧ index < positionBound ∧ items[index]? = some c := by
  constructor
  · intro h
    unfold child? at h
    dsimp only at h
    split at h
    · next index hindex =>
      rcases position_eq_ok_iff.1 hindex with ⟨-, hend⟩ | ⟨hsegment, hbound, -⟩
      · -- the end of an array holds nothing
        rw [hend, List.getElem?_eq_none (Nat.le_refl _)] at h
        simp at h
      · exact ⟨index, hsegment, hbound, h⟩
    · simp at h
  · rintro ⟨index, hsegment, hbound, hc⟩
    obtain ⟨hlt, -⟩ := List.getElem?_eq_some_iff.1 hc
    have hindex : position .root segment items.length = .ok index :=
      position_eq_ok_iff.2 (Or.inr ⟨hsegment, hbound, Nat.le_of_lt hlt⟩)
    rwa [child?_of_position hindex]

/-- No child is behind the items of an array. -/
theorem child?_behind (items : List Tree) :
    (Tree.arr items).child? (toString items.length) = none := by
  cases hc : (Tree.arr items).child? (toString items.length) with
  | none => rfl
  | some c =>
    obtain ⟨index, hindex, -, hitem⟩ := child?_arr_eq_some_iff.1 hc
    obtain ⟨inside, -⟩ := List.getElem?_eq_some_iff.1 hitem
    have hlength : items.length = index := eq_of_toString_eq hindex
    omega

/-- Neither does the dash name an item. -/
theorem child?_dash (items : List Tree) : (Tree.arr items).child? "-" = none := by
  cases hc : (Tree.arr items).child? "-" with
  | none => rfl
  | some c =>
    obtain ⟨index, hindex, -⟩ := child?_arr_eq_some_iff.1 hc
    exact absurd hindex.symm (toString_ne_dash index)

/-- Arrays that hold the same under the position of a segment have the same child there. -/
theorem child?_arr_congr {segment : String} {items items' : List Tree}
    (h : ∀ index : Nat, segment = toString index → items'[index]? = items[index]?) :
    (Tree.arr items').child? segment = (Tree.arr items).child? segment := by
  apply Option.ext
  intro c
  rw [child?_arr_eq_some_iff, child?_arr_eq_some_iff]
  refine exists_congr fun index => and_congr_right fun hsegment => and_congr_right fun _ => ?_
  rw [h index hsegment]

/-! ## §2. Places -/

/-- The tree that lies `segments` below a tree. -/
def at? : List String → Tree → Option Tree
  | [], t => some t
  | segment :: rest, t => (t.child? segment).bind (at? rest)

@[simp] theorem at?_nil (t : Tree) : t.at? [] = some t := rfl

theorem at?_cons (segment : String) (rest : List String) (t : Tree) :
    t.at? (segment :: rest) = (t.child? segment).bind (at? rest) := rfl

/-- Nothing lies below an object without entries. -/
theorem at?_obj_nil {segments : List String} (h : segments ≠ []) :
    (Tree.obj []).at? segments = none := by
  cases segments with
  | nil => exact absurd rfl h
  | cons segment rest => rfl

/-- Below the child that is there, or below an object without entries in its stead, lies what
    lies below the tree. -/
theorem at?_child_getD {segment : String} {rest : List String} (t : Tree) (h : rest ≠ []) :
    ((t.child? segment).getD (.obj [])).at? rest = t.at? (segment :: rest) := by
  rw [at?_cons]
  cases t.child? segment with
  | none => exact at?_obj_nil h
  | some c => rfl

end Tree

namespace Edit

/-- **Reading finds what lies at a place**, whatever the walk so far. -/
theorem read_eq_ok_some_iff {here : Pointer} {segments : List String} {t y : Tree} :
    read here segments t = .ok (some y) ↔ t.at? segments = some y := by
  induction segments generalizing here t with
  | nil => simp [read, Tree.at?]
  | cons segment rest ih =>
    rw [Tree.at?_cons]
    cases t with
    | null | bool | num | str => simp [read, Tree.child?]
    | obj fields =>
      unfold read Tree.child?
      dsimp only
      cases Entries.get? segment fields with
      | none => simp
      | some child => exact ih
    | arr items =>
      -- where the walk stands shows in the failure only
      unfold read
      cases hindex : position (here.child segment) segment items.length with
      | error e =>
        rw [Tree.child?_of_not_position fun index h => by rw [hindex] at h; cases h]
        simp [bind, Except.bind]
      | ok index =>
        rw [Tree.child?_of_position hindex]
        simp only [bind, Except.bind]
        cases items[index]? with
        | none => simp
        | some child => exact ih

theorem get_eq_ok_some_iff {doc y : Tree} {path : Pointer} :
    get doc path = .ok (some y) ↔ doc.at? path.segments = some y :=
  read_eq_ok_some_iff

/-! ## §3. Hanging a tree under a segment -/

/-- The second of two trees is the first with `c` hung under a segment: as the value of a key,
    in the place of an item, or behind the last item. -/
inductive Hung (c : Tree) : String → Tree → Tree → Prop where
  | field (key : String) (fields : List (String × Tree)) :
    Hung c key (.obj fields) (.obj (Entries.put key c fields))
  | item {index : Nat} {items : List Tree} (bound : index < positionBound)
      (inside : index < items.length) :
    Hung c (toString index) (.arr items) (.arr (items.set index c))
  | behind {items : List Tree} (bound : items.length < positionBound) :
    Hung c (toString items.length) (.arr items) (.arr (items ++ [c]))

variable {c t t' : Tree} {segment : String}

/-- The segment finds the tree that was hung there. -/
theorem child?_of_hung (h : Hung c segment t t') : t'.child? segment = some c := by
  cases h with
  | field fields => exact Entries.get?_put_self _ _ _
  | item bound inside =>
    refine Tree.child?_arr_eq_some_iff.2 ⟨_, rfl, bound, ?_⟩
    rw [List.getElem?_set_self inside]
  | behind bound =>
    refine Tree.child?_arr_eq_some_iff.2 ⟨_, rfl, bound, ?_⟩
    rw [List.getElem?_concat_length]

/-- Every other segment finds what it found before. -/
theorem child?_of_hung_of_ne (h : Hung c segment t t') {other : String}
    (hne : other ≠ segment) : t'.child? other = t.child? other := by
  cases h with
  | field fields => exact Entries.get?_put_of_ne hne _ _
  | @item index items bound inside =>
    apply Tree.child?_arr_congr
    intro i hother
    have hi : index ≠ i := fun hi => hne (hother.trans (congrArg toString hi.symm))
    exact List.getElem?_set_ne hi
  | @behind items bound =>
    -- the first position behind the items is now taken, and the next one is no position yet
    apply Tree.child?_arr_congr
    intro i hother
    have hi : i ≠ items.length := fun hi => hne (hother.trans (congrArg toString hi))
    by_cases hlt : i < items.length
    · exact List.getElem?_append_left hlt
    · have hafter : (items ++ [c]).length ≤ i := by
        rw [List.length_append, List.length_singleton]
        omega
      rw [List.getElem?_eq_none hafter, List.getElem?_eq_none (Nat.le_of_not_lt hlt)]

/-- **The keys of an object in which a tree is hung** keep their order; one that is new goes
    to the end. -/
theorem keys_of_hung {fields : List (String × Tree)} (h : Hung c segment (.obj fields) t') :
    ∃ fields' new, t' = .obj fields' ∧
      Entries.keys fields' = Entries.keys fields ++ new ∧ new.length ≤ 1 := by
  cases h with
  | field =>
    by_cases hmem : segment ∈ Entries.keys fields
    · refine ⟨_, [], rfl, ?_, Nat.zero_le 1⟩
      rw [Entries.keys_put_of_mem hmem, List.append_nil]
    · exact ⟨_, [segment], rfl, Entries.keys_put_of_not_mem hmem c, Nat.le_refl 1⟩

/-- A segment under which a tree can be hung can be read. -/
theorem read_of_hung (h : Hung c segment t t') (here : Pointer) (rest : List String) :
    read here (segment :: rest) t =
      match t.child? segment with
      | some child => read (here.child segment) rest child
      | none => .ok none := by
  have hitems : ∀ {index : Nat} {items : List Tree},
      position (here.child segment) segment items.length = .ok index →
        read here (segment :: rest) (.arr items) =
          match (Tree.arr items).child? segment with
          | some child => read (here.child segment) rest child
          | none => .ok none := by
    intro index items hindex
    rw [Tree.child?_of_position hindex, read, hindex]
    rfl
  cases h with
  | field => rfl
  | item bound inside => exact hitems (position_toString bound (Nat.le_of_lt inside))
  | behind bound => exact hitems (position_toString bound (Nat.le_refl _))

/-! ## §4. Hanging more than one tree -/

theorem hung_obj_iff {fields : List (String × Tree)} :
    Hung c segment (.obj fields) t' ↔ t' = .obj (Entries.put segment c fields) := by
  constructor
  · rintro ⟨⟩
    rfl
  · rintro rfl
    exact Hung.field segment fields

theorem hung_arr_iff {items : List Tree} :
    Hung c segment (.arr items) t' ↔
      ∃ index, segment = toString index ∧ index < positionBound ∧
        (index < items.length ∧ t' = .arr (items.set index c) ∨
          index = items.length ∧ t' = .arr (items ++ [c])) := by
  constructor
  · rintro ⟨⟩
    · next index bound inside => exact ⟨index, rfl, bound, Or.inl ⟨inside, rfl⟩⟩
    · next bound => exact ⟨items.length, rfl, bound, Or.inr ⟨rfl, rfl⟩⟩
  · rintro ⟨index, rfl, bound, ⟨inside, rfl⟩ | ⟨rfl, rfl⟩⟩
    · exact Hung.item bound inside
    · exact Hung.behind bound

variable {other : Tree}

/-- Where one tree can be hung, any tree can. -/
theorem exists_hung (h : Hung c segment t t') (other : Tree) :
    ∃ t'', Hung other segment t t'' := by
  cases h with
  | field => exact ⟨_, Hung.field _ _⟩
  | item bound inside => exact ⟨_, Hung.item bound inside⟩
  | behind bound => exact ⟨_, Hung.behind bound⟩

/-- Where a child is, a tree can be hung in its place. -/
theorem exists_hung_of_child? (h : t.child? segment = some c) (other : Tree) :
    ∃ t'', Hung other segment t t'' := by
  cases t with
  | null | bool | num | str => cases h
  | obj fields => exact ⟨_, Hung.field segment fields⟩
  | arr items =>
    obtain ⟨index, rfl, bound, hitem⟩ := Tree.child?_arr_eq_some_iff.1 h
    obtain ⟨inside, -⟩ := List.getElem?_eq_some_iff.1 hitem
    exact ⟨_, Hung.item bound inside⟩

/-- Hanging the child that is there changes nothing. -/
theorem hung_self (h : t.child? segment = some c) : Hung c segment t t := by
  cases t with
  | null | bool | num | str => cases h
  | obj fields =>
    have hput : Entries.put segment c fields = fields := Entries.put_of_get? h
    exact hung_obj_iff.2 (by rw [hput])
  | arr items =>
    obtain ⟨index, rfl, bound, hitem⟩ := Tree.child?_arr_eq_some_iff.1 h
    obtain ⟨inside, rfl⟩ := List.getElem?_eq_some_iff.1 hitem
    refine hung_arr_iff.2 ⟨index, rfl, bound, Or.inl ⟨inside, ?_⟩⟩
    rw [List.set_getElem_self]

/-- **A tree that is hung over another one** leaves no trace of it. -/
theorem hung_over {t'' : Tree} (h : Hung c segment t t') (h' : Hung other segment t t'') :
    Hung other segment t' t'' := by
  cases t with
  | null | bool | num | str => cases h
  | obj fields =>
    obtain rfl := hung_obj_iff.1 h
    obtain rfl := hung_obj_iff.1 h'
    exact hung_obj_iff.2 (by rw [Entries.put_put_self])
  | arr items =>
    obtain ⟨index, rfl, bound, hcase⟩ := hung_arr_iff.1 h
    obtain ⟨index', hindex, -, hcase'⟩ := hung_arr_iff.1 h'
    obtain rfl : index = index' := eq_of_toString_eq hindex
    rcases hcase with ⟨inside, rfl⟩ | ⟨rfl, rfl⟩
    · rcases hcase' with ⟨-, rfl⟩ | ⟨hend, -⟩
      · refine hung_arr_iff.2 ⟨index, rfl, bound, Or.inl ⟨?_, ?_⟩⟩
        · rwa [List.length_set]
        · rw [List.set_set]
      · omega
    · rcases hcase' with ⟨inside, -⟩ | ⟨-, rfl⟩
      · omega
      · -- what was hung behind the items is the last one by now
        refine hung_arr_iff.2 ⟨items.length, rfl, bound, Or.inl ⟨?_, ?_⟩⟩
        · rw [List.length_append, List.length_singleton]
          omega
        · rw [List.set_append_right _ _ (Nat.le_refl _), Nat.sub_self, List.set_cons_zero]

/-- A child that is hung back is where it was. -/
theorem hung_back (h : Hung c segment t t') (hold : t.child? segment = some other) :
    Hung other segment t' t :=
  hung_over h (hung_self hold)

/-- **Trees under two segments can be hung in either order**, if one of them is hung in the
    place of a child. -/
theorem hung_comm {segment' : String} {t'' : Tree} (h : Hung c segment t t')
    (h' : Hung other segment' t t'') (hne : segment ≠ segment')
    (hold : t.child? segment ≠ none) :
    ∃ r, Hung other segment' t' r ∧ Hung c segment t'' r := by
  cases t with
  | null | bool | num | str => cases h
  | obj fields =>
    obtain rfl := hung_obj_iff.1 h
    obtain rfl := hung_obj_iff.1 h'
    have hmem : segment ∈ Entries.keys fields :=
      Decidable.byContradiction fun hmem => hold (Entries.get?_eq_none_iff.2 hmem)
    refine ⟨_, Hung.field segment' _, hung_obj_iff.2 ?_⟩
    rw [Entries.put_comm hne hmem]
  | arr items =>
    obtain ⟨index, rfl, bound, hcase⟩ := hung_arr_iff.1 h
    obtain ⟨index', rfl, bound', hcase'⟩ := hung_arr_iff.1 h'
    have hindex : index ≠ index' := fun heq => hne (congrArg toString heq)
    rcases hcase with ⟨inside, rfl⟩ | ⟨rfl, -⟩
    · rcases hcase' with ⟨inside', rfl⟩ | ⟨rfl, rfl⟩
      · refine ⟨_, Hung.item bound' (by rwa [List.length_set]), hung_arr_iff.2 ?_⟩
        refine ⟨index, rfl, bound, Or.inl ⟨by rwa [List.length_set], ?_⟩⟩
        rw [List.set_comm _ _ hindex]
      · refine ⟨.arr (items.set index c ++ [other]), hung_arr_iff.2 ?_, hung_arr_iff.2 ?_⟩
        · exact ⟨items.length, rfl, bound', Or.inr ⟨(List.length_set).symm, rfl⟩⟩
        · refine ⟨index, rfl, bound, Or.inl ⟨?_, ?_⟩⟩
          · rw [List.length_append]
            omega
          · rw [List.set_append_left _ _ inside]
    · exact absurd (Tree.child?_behind items) hold

end Edit

end DesignTokens
