/-
  DesignTokens.Proofs.Edit.Frame — what a write changes, and what it leaves alone.

  A write walks to its place through three traversals that look alike: it reaches or creates
  the parents, it checks what its place holds, and it hangs the value there.  On the way back
  every parent is hung into its own parent.  `Written` keeps of all this only the trees that
  are hung and the segments under which they are hung, with the dashes anchored to the lengths
  of the arrays before the write; the checks and the failures are gone.

  Main facts:
    * `written_of_writeBelow` — what a write that is made does.
    * `at?_of_written` — its place holds what was written.
    * `at?_of_written_of_apart` — the places apart from its own hold what they held.
    * `keys_of_written` — the keys of the objects above its place.
    * `put_get_frame` — the law of `add`, `replace` and `merge`, strict or not.
-/
import DesignTokens.Proofs.Edit.Place
import DesignTokens.Proofs.Outcome

namespace DesignTokens

/-! ## §1. Anchored paths -/

namespace Tree

/-- The segment with which a tree can be read again: a dash that meets an array stands for the
    length of the array. -/
def anchor (segment : String) : Tree → String
  | .arr items => if segment = "-" then toString items.length else segment
  | _ => segment

/-- The segments of a path, anchored to the trees that they meet.  Where nothing is, an object
    without entries is met. -/
def anchored : List String → Tree → List String
  | [], _ => []
  | segment :: rest, t =>
    t.anchor segment :: anchored rest ((t.child? segment).getD (.obj []))

theorem anchored_cons (segment : String) (rest : List String) (t : Tree) :
    anchored (segment :: rest) t
      = t.anchor segment :: anchored rest ((t.child? segment).getD (.obj [])) := rfl

end Tree

namespace Edit

/-- The path of a document with every dash that meets an array replaced by the length of that
    array. -/
def anchoredPath (path : Pointer) (doc : Tree) : Pointer := ⟨Tree.anchored path.segments doc⟩

/-- Every array that a dash of the path meets is shorter than the positions reach.  Positions
    are 64-bit numbers, and so are the lengths of arrays; a list alone does not say so. -/
def Roomy (segments : List String) (t : Tree) : Prop :=
  ∀ front items, front ++ ["-"] <+: segments → t.at? front = some (.arr items) →
    items.length < positionBound

theorem roomy_child {segment : String} {rest : List String} {t : Tree}
    (h : Roomy (segment :: rest) t) : Roomy rest ((t.child? segment).getD (.obj [])) := by
  intro front items hfront hitems
  cases hc : t.child? segment with
  | none =>
    -- a parent that is created holds no array
    rw [hc, Option.getD_none] at hitems
    cases front with
    | nil => simp at hitems
    | cons first front => rw [Tree.at?_obj_nil (List.cons_ne_nil _ _)] at hitems; cases hitems
  | some child =>
    rw [hc, Option.getD_some] at hitems
    refine h (segment :: front) items ?_ ?_
    · exact List.cons_prefix_cons.2 ⟨rfl, hfront⟩
    · rw [Tree.at?_cons, hc]
      exact hitems

/-! ## §2. Written trees -/

/-- The second of two trees is the first with `leaf old` written at a place, where `old` is
    what lay there.  The trees on the way are hung one into the other. -/
inductive Written (leaf : Option Tree → Tree) : List String → Tree → Tree → Prop where
  | last {segment : String} {t t' : Tree} :
    Hung (leaf (t.child? segment)) segment t t' → Written leaf [segment] t t'
  | deeper {segment : String} {rest : List String} {t t' child : Tree} :
    Written leaf rest ((t.child? segment).getD (.obj [])) child → Hung child segment t t' →
      Written leaf (segment :: rest) t t'

variable {leaf : Option Tree → Tree} {place : List String} {t t' : Tree}

theorem ne_nil_of_written (h : Written leaf place t t') : place ≠ [] := by
  cases h with
  | last => exact List.cons_ne_nil _ _
  | deeper => exact List.cons_ne_nil _ _

/-- **The place holds what was written.** -/
theorem at?_of_written (h : Written leaf place t t') :
    t'.at? place = some (leaf (t.at? place)) := by
  induction h with
  | @last segment t t' hung =>
    rw [Tree.at?_cons, Tree.at?_cons, child?_of_hung hung]
    cases t.child? segment with
    | none => rfl
    | some old => rfl
  | @deeper segment rest t t' child hchild hung ih =>
    rw [Tree.at?_cons, child?_of_hung hung, Option.bind_some, ih,
      Tree.at?_child_getD t (ne_nil_of_written hchild)]

/-- **The places apart from it hold what they held**: those that lie neither above nor below. -/
theorem at?_of_written_of_apart (h : Written leaf place t t') {other : List String}
    (habove : ¬ other <+: place) (hbelow : ¬ place <+: other) :
    t'.at? other = t.at? other := by
  induction h generalizing other with
  | @last segment t t' hung =>
    cases other with
    | nil => exact absurd List.nil_prefix habove
    | cons first front =>
      have hne : first ≠ segment := by
        rintro rfl
        exact hbelow (List.cons_prefix_cons.2 ⟨rfl, List.nil_prefix⟩)
      rw [Tree.at?_cons, Tree.at?_cons, child?_of_hung_of_ne hung hne]
  | @deeper segment rest t t' child hchild hung ih =>
    cases other with
    | nil => exact absurd List.nil_prefix habove
    | cons first front =>
      by_cases hne : first = segment
      · -- the walks part further down, in the child that was hung
        subst hne
        have habove' : ¬ front <+: rest := fun h => habove (List.cons_prefix_cons.2 ⟨rfl, h⟩)
        have hbelow' : ¬ rest <+: front := fun h => hbelow (List.cons_prefix_cons.2 ⟨rfl, h⟩)
        have hfront : front ≠ [] := by
          rintro rfl
          exact habove' List.nil_prefix
        rw [Tree.at?_cons, child?_of_hung hung, Option.bind_some, ih habove' hbelow',
          Tree.at?_child_getD t hfront]
      · rw [Tree.at?_cons, Tree.at?_cons, child?_of_hung_of_ne hung hne]

/-- **The keys of the objects above the place** keep their order, and at most one new key goes
    to the end. -/
theorem keys_of_written (h : Written leaf place t t') {other : List String}
    {fields : List (String × Tree)} (hfields : t.at? other = some (.obj fields))
    (hbelow : ¬ place <+: other) :
    ∃ fields' new, t'.at? other = some (.obj fields') ∧
      Entries.keys fields' = Entries.keys fields ++ new ∧ new.length ≤ 1 := by
  by_cases habove : other <+: place
  · -- the walk to the place passes through the object, or it starts there
    induction h generalizing other with
    | last hung =>
      cases other with
      | nil =>
        obtain rfl : _ = Tree.obj fields := Option.some.inj hfields
        obtain ⟨fields', new, rfl, hkeys, hnew⟩ := keys_of_hung hung
        exact ⟨fields', new, rfl, hkeys, hnew⟩
      | cons first front =>
        obtain ⟨rfl, hfront⟩ := List.cons_prefix_cons.1 habove
        exact absurd (List.cons_prefix_cons.2 ⟨rfl, List.nil_prefix⟩) hbelow
    | @deeper segment rest t t' child hchild hung ih =>
      cases other with
      | nil =>
        obtain rfl : t = Tree.obj fields := Option.some.inj hfields
        obtain ⟨fields', new, rfl, hkeys, hnew⟩ := keys_of_hung hung
        exact ⟨fields', new, rfl, hkeys, hnew⟩
      | cons first front =>
        obtain ⟨rfl, hfront⟩ := List.cons_prefix_cons.1 habove
        have hbelow' : ¬ rest <+: front := fun h => hbelow (List.cons_prefix_cons.2 ⟨rfl, h⟩)
        have hold : ((t.child? first).getD (.obj [])).at? front = some (.obj fields) := by
          rw [Tree.at?_cons] at hfields
          cases hc : t.child? first with
          | none => rw [hc] at hfields; simp at hfields
          | some old => rw [hc] at hfields; exact hfields
        rw [Tree.at?_cons, child?_of_hung hung]
        exact ih hold hbelow' hfront
  · rw [at?_of_written_of_apart h habove hbelow]
    exact ⟨fields, [], hfields, (List.append_nil _).symm, Nat.zero_le 1⟩

/-- The place of a write can be read in the tree before the write. -/
theorem read_of_written (h : Written leaf place t t') (here : Pointer) :
    read here place t = .ok (t.at? place) := by
  induction h generalizing here with
  | @last segment t t' hung =>
    rw [read_of_hung hung, Tree.at?_cons]
    cases t.child? segment with
    | none => rfl
    | some old => simp [read]
  | @deeper segment rest t t' child hchild hung ih =>
    rw [read_of_hung hung, Tree.at?_cons]
    cases hc : t.child? segment with
    | none => rfl
    | some old =>
      rw [hc] at ih
      exact ih (here.child segment)

/-! ## §3. What a write does -/

/-- What a write leaves at a place that held `old`, or nothing. -/
def left (mode : WriteMode) (value : Tree) : Option Tree → Tree
  | some old => overwrite mode old value
  | none => value

/-- A tree that is hung over an item is hung under the anchored segment. -/
theorem hung_item {place : Pointer} {segment : String} {items : List Tree} {index : Nat}
    {old : Tree} (hindex : position place segment items.length = .ok index)
    (hold : items[index]? = some old) (c : Tree) :
    Hung c ((Tree.arr items).anchor segment) (.arr items) (.arr (items.set index c)) := by
  obtain ⟨hlt, -⟩ := List.getElem?_eq_some_iff.1 hold
  rcases position_eq_ok_iff.1 hindex with ⟨-, hend⟩ | ⟨rfl, hbound, -⟩
  · omega
  · unfold Tree.anchor
    dsimp only
    rw [if_neg (toString_ne_dash index)]
    exact Hung.item hbound hlt

/-- A tree that is hung behind the items is hung under the anchored segment. -/
theorem hung_behind {place : Pointer} {segment : String} {items : List Tree} {index : Nat}
    (hindex : position place segment items.length = .ok index)
    (hold : items[index]? = none) (hroom : segment = "-" → items.length < positionBound)
    (c : Tree) :
    Hung c ((Tree.arr items).anchor segment) (.arr items) (.arr (items ++ [c])) := by
  have hle : items.length ≤ index := List.getElem?_eq_none_iff.1 hold
  unfold Tree.anchor
  dsimp only
  rcases position_eq_ok_iff.1 hindex with ⟨hdash, -⟩ | ⟨rfl, hbound, hge⟩
  · rw [if_pos hdash]
    exact Hung.behind (hroom hdash)
  · obtain rfl : index = items.length := by omega
    rw [if_neg (toString_ne_dash _)]
    exact Hung.behind hbound

/-- Anchoring a segment leaves the child that it names. -/
theorem child?_anchor (segment : String) (t : Tree) :
    t.child? (t.anchor segment) = t.child? segment := by
  cases t with
  | null | bool | num | str | obj => rfl
  | arr items =>
    unfold Tree.anchor
    dsimp only
    by_cases hdash : segment = "-"
    · rw [if_pos hdash, hdash, Tree.child?_behind, Tree.child?_dash]
    · rw [if_neg hdash]

variable {mode : WriteMode} {strict : Bool} {value : Tree} {created : Option Pointer}
  {here : Pointer} {segment : String} {rest : List String}

theorem roomy_dash {items : List Tree} (h : Roomy (segment :: rest) (.arr items))
    (hdash : segment = "-") : items.length < positionBound :=
  h [] items (List.cons_prefix_cons.2 ⟨hdash.symm, List.nil_prefix⟩) rfl

theorem hung_of_writeChild (h : writeChild mode strict value created here segment t = .ok t')
    (hroom : Roomy [segment] t) :
    Hung (left mode value (t.child? segment)) (t.anchor segment) t t' := by
  cases t with
  | null | bool | num | str => simp [writeChild] at h
  | obj fields =>
    unfold writeChild at h
    unfold Tree.child? Tree.anchor
    dsimp only at h ⊢
    obtain ⟨-, -, hput⟩ := bind_eq_ok_iff.1 h
    cases hold : Entries.get? segment fields with
    | none =>
      rw [hold] at hput
      cases hput
      exact Hung.field segment fields
    | some old =>
      rw [hold] at hput
      cases hput
      exact Hung.field segment fields
  | arr items =>
    obtain ⟨index, hindex, hwrite⟩ := bind_eq_ok_iff.1 h
    obtain ⟨-, -, hhang⟩ := bind_eq_ok_iff.1 hwrite
    rw [Tree.child?_of_position hindex]
    cases hold : items[index]? with
    | none =>
      rw [hold] at hhang
      cases hhang
      exact hung_behind hindex hold (roomy_dash hroom) value
    | some old =>
      rw [hold] at hhang
      cases hhang
      exact hung_item hindex hold (overwrite mode old value)

/-- A write further down writes to the child that is there, or to an object without entries,
    and hangs what comes of it. -/
theorem hung_of_writeBelow {next : String}
    (h : writeBelow mode strict value created here segment (next :: rest) t = .ok t')
    (hroom : Roomy (segment :: next :: rest) t) :
    ∃ created' child,
      writeBelow mode strict value created' (here.child segment) next rest
          ((t.child? segment).getD (.obj [])) = .ok child ∧
        Hung child (t.anchor segment) t t' := by
  cases t with
  | null | bool | num | str => simp [writeBelow] at h
  | obj fields =>
    unfold writeBelow at h
    unfold Tree.child? Tree.anchor
    dsimp only at h ⊢
    cases hold : Entries.get? segment fields with
    | none =>
      rw [hold] at h
      obtain ⟨child, hchild, hput⟩ := bind_eq_ok_iff.1 h
      cases hput
      exact ⟨_, child, hchild, Hung.field segment fields⟩
    | some old =>
      rw [hold] at h
      obtain ⟨child, hchild, hput⟩ := bind_eq_ok_iff.1 h
      cases hput
      exact ⟨_, child, hchild, Hung.field segment fields⟩
  | arr items =>
    unfold writeBelow at h
    obtain ⟨index, hindex, hbelow⟩ := bind_eq_ok_iff.1 h
    rw [Tree.child?_of_position hindex]
    cases hold : items[index]? with
    | none =>
      rw [hold] at hbelow
      obtain ⟨child, hchild, happend⟩ := bind_eq_ok_iff.1 hbelow
      cases happend
      exact ⟨_, child, hchild, hung_behind hindex hold (roomy_dash hroom) child⟩
    | some old =>
      rw [hold] at hbelow
      obtain ⟨child, hchild, hset⟩ := bind_eq_ok_iff.1 hbelow
      cases hset
      exact ⟨_, child, hchild, hung_item hindex hold child⟩

/-- **What a write that is made does.** -/
theorem written_of_writeBelow
    (h : writeBelow mode strict value created here segment rest t = .ok t')
    (hroom : Roomy (segment :: rest) t) :
    Written (left mode value) (Tree.anchored (segment :: rest) t) t t' := by
  induction rest generalizing created here segment t t' with
  | nil =>
    rw [Tree.anchored_cons]
    refine Written.last ?_
    rw [child?_anchor]
    exact hung_of_writeChild (by rwa [writeBelow] at h) hroom
  | cons next rest ih =>
    -- which parent was created first matters to the checks alone, so it is forgotten here
    obtain ⟨created', child, hchild, hung⟩ := hung_of_writeBelow h hroom
    rw [Tree.anchored_cons]
    refine Written.deeper ?_ hung
    rw [child?_anchor]
    exact ih hchild (roomy_child hroom)

/-! ## §4. The law of writing -/

/-- **Put-get and frame.**  A write that is made leaves at its place what it says; every place
    apart from it holds what it held; and every object that is not at or below it keeps its
    keys in their order, with at most one new key at its end.  That the path is roomy says of
    the arrays it appends to that their lengths are 64-bit numbers. -/
theorem put_get_frame {path : Pointer} {doc doc' : Tree} {flag : Option Bool}
    {strictByDefault : Bool} (hpath : path.isRoot = false)
    (hroom : Roomy path.segments doc)
    (h : (Edit.write mode path value flag).apply strictByDefault doc = .ok doc') :
    (∃ old, get doc (anchoredPath path doc) = .ok old ∧
        get doc' (anchoredPath path doc) = .ok (some (left mode value old))) ∧
      (∀ q : Pointer, ¬ q.segments <+: (anchoredPath path doc).segments →
        ¬ (anchoredPath path doc).segments <+: q.segments →
          ∀ y, get doc' q = .ok (some y) ↔ get doc q = .ok (some y)) ∧
      ∀ (q : Pointer) (fields : List (String × Tree)),
        get doc q = .ok (some (.obj fields)) →
          ¬ (anchoredPath path doc).segments <+: q.segments →
            ∃ fields' new, get doc' q = .ok (some (.obj fields')) ∧
              Entries.keys fields' = Entries.keys fields ++ new ∧ new.length ≤ 1 := by
  obtain ⟨segments⟩ := path
  cases segments with
  | nil => simp [Pointer.isRoot] at hpath
  | cons segment rest =>
    have hwritten : Written (left mode value) (anchoredPath ⟨segment :: rest⟩ doc).segments
        doc doc' := written_of_writeBelow h hroom
    refine ⟨⟨_, read_of_written hwritten .root, ?_⟩, ?_, ?_⟩
    · exact get_eq_ok_some_iff.2 (at?_of_written hwritten)
    · intro q habove hbelow y
      rw [get_eq_ok_some_iff, get_eq_ok_some_iff,
        at?_of_written_of_apart hwritten habove hbelow]
    · intro q fields hfields hbelow
      obtain ⟨fields', new, hat, hkeys, hnew⟩ :=
        keys_of_written hwritten (get_eq_ok_some_iff.1 hfields) hbelow
      exact ⟨fields', new, get_eq_ok_some_iff.2 hat, hkeys, hnew⟩

/-- A palette with one color. -/
def palette : Tree := .obj [("colors", .arr [.str "red"]), ("size", .ofInt 4)]

/-- The place behind the last color, and below it one that no parent leads to. -/
def nextName : Pointer := ⟨["colors", "-", "name"]⟩

theorem roomy_palette : Roomy nextName.segments palette := by
  intro front items hfront hitems
  rcases front with _ | ⟨first, _ | ⟨second, _ | ⟨third, front⟩⟩⟩
  · exact absurd hfront (by decide)
  · obtain ⟨rfl, -⟩ := List.cons_prefix_cons.1 hfront
    obtain rfl : [Tree.str "red"] = items := Tree.arr.inj (Option.some.inj hitems)
    decide
  · exact absurd (List.cons_prefix_cons.1 (List.cons_prefix_cons.1 hfront).2).2 (by simp)
  · have hle := hfront.length_le
    simp only [List.length_append, List.length_cons, nextName] at hle
    omega

/-- The law at an `add` that appends to an array and creates a parent on its way. -/
theorem put_get_frame_palette :
    ∃ doc', (Edit.write .add nextName (.str "blue") none).apply false palette = .ok doc' ∧
      get doc' ⟨["colors", "1", "name"]⟩ = .ok (some (.str "blue")) ∧
      get doc' ⟨["colors", "0"]⟩ = .ok (some (.str "red")) ∧
      ∃ fields new, doc' = .obj fields ∧ Entries.keys fields = ["colors", "size"] ++ new := by
  have hanchor : anchoredPath nextName palette = ⟨["colors", "1", "name"]⟩ := by decide
  have hwrite : (Edit.write .add nextName (.str "blue") none).apply false palette
      = .ok (.obj [("colors", .arr [.str "red", .obj [("name", .str "blue")]]),
        ("size", .ofInt 4)]) := rfl
  obtain ⟨⟨old, -, hput⟩, hframe, hkeys⟩ :=
    put_get_frame (by decide) roomy_palette hwrite
  rw [hanchor] at hput hframe hkeys
  refine ⟨_, hwrite, ?_, ?_, ?_⟩
  · cases old <;> exact hput
  · exact (hframe ⟨["colors", "0"]⟩ (by decide) (by decide) _).2 rfl
  · obtain ⟨fields, new, hroot, hnew, -⟩ := hkeys .root _ rfl (by decide)
    exact ⟨fields, new, by simpa [get, read, Pointer.root] using hroot, hnew⟩

end Edit

end DesignTokens
