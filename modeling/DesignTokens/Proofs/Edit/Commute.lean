/-
  DesignTokens.Proofs.Edit.Commute — writes to two places, and writes to one place.

  Two writes share the parents above the place where their paths part.  There each hangs a tree
  of its own under a segment of its own, and which tree that is depends on the child under that
  segment alone; so the writes can be made in either order.  A write to a place that has been
  written finds its parents made and meets what the first write left.  Both are shown of
  written trees, and the walks follow.

  Main facts:
    * `written_comm` — writes whose paths part, at one of which something stands.
    * `written_over` — a write over a write.
    * `apply_eq_ok_iff_of_occupied` — a write to a place at which something stands.
    * `writes_commute_and_collapse` — both laws, for edits.
-/
import DesignTokens.Proofs.Edit.Checks
import DesignTokens.Proofs.Edit.Exact
import DesignTokens.Proofs.Tree.Merge

namespace DesignTokens.Edit

section Written

variable {leaf leaf' : Option Tree → Tree} {segment : String} {place rest : List String}
  {t t' t'' : Tree}

/-! ## §1. Writes can be made -/

/-- Where one write is made, any write is. -/
theorem exists_written (h : Written leaf place t t') (leaf' : Option Tree → Tree) :
    ∃ t'', Written leaf' place t t'' := by
  induction h with
  | last hung =>
    obtain ⟨t'', hung'⟩ := exists_hung hung (leaf' _)
    exact ⟨t'', Written.last hung'⟩
  | deeper _ hung ih =>
    obtain ⟨child, hchild⟩ := ih
    obtain ⟨t'', hung'⟩ := exists_hung hung child
    exact ⟨t'', Written.deeper hchild hung'⟩

/-- A write is made where something stands. -/
theorem exists_written_of_at? {node : Tree} (hplace : place ≠ []) (h : t.at? place = some node)
    (leaf : Option Tree → Tree) : ∃ t', Written leaf place t t' := by
  induction place generalizing t with
  | nil => exact absurd rfl hplace
  | cons segment rest ih =>
    rw [Tree.at?_cons] at h
    obtain ⟨old, hold, hrest⟩ := Option.bind_eq_some_iff.1 h
    cases rest with
    | nil =>
      obtain ⟨t', hung⟩ := exists_hung_of_child? hold (leaf (t.child? segment))
      exact ⟨t', Written.last hung⟩
    | cons next rest =>
      obtain ⟨child, hchild⟩ := ih (List.cons_ne_nil _ _) hrest
      obtain ⟨t', hung⟩ := exists_hung_of_child? hold child
      exact ⟨t', Written.deeper (by rwa [hold]) hung⟩

/-! ## §2. Writes whose paths part -/

/-- A write hangs one tree under the first segment of its path, and which one depends on the
    child under that segment alone. -/
theorem exists_hung_of_written (h : Written leaf (segment :: rest) t t') :
    ∃ child, Hung child segment t t' ∧
      ∀ s s', s.child? segment = t.child? segment → Hung child segment s s' →
        Written leaf (segment :: rest) s s' := by
  cases h with
  | last hung =>
    refine ⟨_, hung, fun s s' hsame hung' => Written.last ?_⟩
    rwa [hsame]
  | deeper hchild hung =>
    refine ⟨_, hung, fun s s' hsame hung' => Written.deeper ?_ hung'⟩
    rwa [hsame]

/-- **Writes whose paths part can be made in either order**, if something stands at one of the
    two places. -/
theorem written_comm {place' : List String} (h : Written leaf place t t')
    (h' : Written leaf' place' t t'') (habove : ¬ place <+: place') (hbelow : ¬ place' <+: place)
    (hold : t.at? place ≠ none) : ∃ r, Written leaf' place' t' r ∧ Written leaf place t'' r := by
  induction place generalizing place' t t' t'' with
  | nil => exact absurd List.nil_prefix habove
  | cons segment rest ih =>
    cases place' with
    | nil => exact absurd List.nil_prefix hbelow
    | cons segment' rest' =>
      rw [Tree.at?_cons] at hold
      by_cases hne : segment = segment'
      · -- the paths part further down, in the child that both writes change
        subst hne
        have habove' : ¬ rest <+: rest' := fun h => habove (List.cons_prefix_cons.2 ⟨rfl, h⟩)
        have hbelow' : ¬ rest' <+: rest := fun h => hbelow (List.cons_prefix_cons.2 ⟨rfl, h⟩)
        cases h with
        | last _ => exact absurd List.nil_prefix habove'
        | deeper hchild hung =>
          cases h' with
          | last _ => exact absurd List.nil_prefix hbelow'
          | deeper hchild' hung' =>
            have hdeep : ((t.child? segment).getD (.obj [])).at? rest ≠ none := by
              rwa [Tree.at?_child_getD t (ne_nil_of_written hchild), Tree.at?_cons]
            obtain ⟨child, hr', hr⟩ := ih hchild hchild' habove' hbelow' hdeep
            obtain ⟨r, hungr⟩ := exists_hung hung child
            refine ⟨r, Written.deeper ?_ (hung_over hung hungr),
              Written.deeper ?_ (hung_over hung' hungr)⟩
            · rwa [child?_of_hung hung]
            · rwa [child?_of_hung hung']
      · obtain ⟨child, hung, hwrite⟩ := exists_hung_of_written h
        obtain ⟨child', hung', hwrite'⟩ := exists_hung_of_written h'
        have hchild : t.child? segment ≠ none := by
          intro hnone
          rw [hnone] at hold
          exact hold rfl
        obtain ⟨r, hr', hr⟩ := hung_comm hung hung' hne hchild
        exact ⟨r, hwrite' _ _ (child?_of_hung_of_ne hung (Ne.symm hne)) hr',
          hwrite _ _ (child?_of_hung_of_ne hung' hne) hr⟩

/-! ## §3. Writes to one place -/

/-- **A write over a write** leaves what one write would have left. -/
theorem written_over {again : Option Tree → Tree} (h : Written leaf place t t')
    (h' : Written leaf' place t t'') (hagain : ∀ old, again (some (leaf old)) = leaf' old) :
    Written again place t' t'' := by
  induction h generalizing t'' with
  | @last segment t t' hung =>
    cases h' with
    | last hung' =>
      refine Written.last ?_
      rw [child?_of_hung hung, hagain]
      exact hung_over hung hung'
    | deeper hchild' _ => exact absurd rfl (ne_nil_of_written hchild')
  | @deeper segment rest t t' child hchild hung ih =>
    cases h' with
    | last _ => exact absurd rfl (ne_nil_of_written hchild)
    | deeper hchild' hung' =>
      refine Written.deeper ?_ (hung_over hung hung')
      rw [child?_of_hung hung]
      exact ih hchild'

end Written

/-! ## §4. Edits -/

variable {mode : WriteMode} {value doc doc' : Tree} {path : Pointer} {flag : Option Bool}
  {strictByDefault : Bool}

/-- **A write to a place at which something stands** meets no check but those of a strict
    `add`, so it is made exactly as `Written` says. -/
theorem apply_eq_ok_iff_of_occupied (hpath : path.isRoot = false) (hplace : Occupied path doc)
    (hmode : mode = .add → flag.getD strictByDefault = false) :
    (Edit.write mode path value flag).apply strictByDefault doc = .ok doc' ↔
      Written (left mode value) path.segments doc doc' := by
  obtain ⟨node, hnode⟩ := hplace
  have hanchored : Tree.anchored path.segments doc = path.segments :=
    Tree.anchored_of_at? (get_eq_ok_some_iff.1 hnode)
  rw [← writeAt_eq_ok_iff hpath hanchored]
  show writeAt mode (flag.getD strictByDefault) path value doc = .ok doc' ↔ _
  cases hstrict : flag.getD strictByDefault with
  | false => exact Iff.rfl
  | true =>
    have hcleared : Cleared mode none (get doc path.parent) (get doc path) := by
      cases mode with
      | add =>
        rw [hmode rfl] at hstrict
        cases hstrict
      | merge | replace => exact ⟨node, hnode⟩
    exact (guarded_writeAt hpath doc').trans (and_iff_left hcleared)

theorem isRoot_of_not_prefix {p q : Pointer} (h : ¬ p.segments <+: q.segments) :
    p.isRoot = false := by
  obtain ⟨segments⟩ := p
  cases segments with
  | nil => exact absurd List.nil_prefix h
  | cons segment rest => rfl

theorem exists_written_of_occupied (hpath : path.isRoot = false) (hplace : Occupied path doc)
    (leaf : Option Tree → Tree) : ∃ doc', Written leaf path.segments doc doc' := by
  obtain ⟨node, hnode⟩ := hplace
  refine exists_written_of_at? ?_ (get_eq_ok_some_iff.1 hnode) leaf
  intro hnil
  rw [Pointer.isRoot, hnil] at hpath
  cases hpath

/-- A write whose path parts from that of another leaves its place occupied. -/
theorem occupied_of_written_of_apart {leaf : Option Tree → Tree} {place : List String}
    (h : Written leaf place doc doc') (habove : ¬ path.segments <+: place)
    (hbelow : ¬ place <+: path.segments) (hplace : Occupied path doc) : Occupied path doc' := by
  obtain ⟨node, hnode⟩ := hplace
  refine ⟨node, get_eq_ok_some_iff.2 ?_⟩
  rw [at?_of_written_of_apart h habove hbelow]
  exact get_eq_ok_some_iff.1 hnode

/-- Writes to two places at which something stands, neither above the other. -/
theorem applyAll_comm {p q : Pointer} {mode' : WriteMode} {value' : Tree} {flag' : Option Bool}
    (hp : Occupied p doc) (hq : Occupied q doc) (hpq : ¬ p.segments <+: q.segments)
    (hqp : ¬ q.segments <+: p.segments) (hmode : mode = .add → flag.getD strictByDefault = false)
    (hmode' : mode' = .add → flag'.getD strictByDefault = false) :
    ∃ result,
      applyAll strictByDefault [.write mode p value flag, .write mode' q value' flag'] doc
        = .ok result ∧
      applyAll strictByDefault [.write mode' q value' flag', .write mode p value flag] doc
        = .ok result := by
  have hproot : p.isRoot = false := isRoot_of_not_prefix hpq
  have hqroot : q.isRoot = false := isRoot_of_not_prefix hqp
  obtain ⟨first, hfirst⟩ : ∃ t', Written (left mode value) p.segments doc t' :=
    exists_written_of_occupied hproot hp _
  obtain ⟨second, hsecond⟩ : ∃ t', Written (left mode' value') q.segments doc t' :=
    exists_written_of_occupied hqroot hq _
  have hold : doc.at? p.segments ≠ none := by
    obtain ⟨node, hnode⟩ := hp
    rw [get_eq_ok_some_iff.1 hnode]
    exact Option.some_ne_none node
  obtain ⟨result, hafter, hbefore⟩ := written_comm hfirst hsecond hpq hqp hold
  -- each write finds its place occupied after the other one, too
  have hq' : Occupied q first := occupied_of_written_of_apart hfirst hqp hpq hq
  have hp' : Occupied p second := occupied_of_written_of_apart hsecond hpq hqp hp
  refine ⟨result, ?_, ?_⟩
  · refine bind_eq_ok_iff.2 ⟨first, (apply_eq_ok_iff_of_occupied hproot hp hmode).2 hfirst, ?_⟩
    exact bind_eq_ok_iff.2
      ⟨result, (apply_eq_ok_iff_of_occupied hqroot hq' hmode').2 hafter, rfl⟩
  · refine bind_eq_ok_iff.2
      ⟨second, (apply_eq_ok_iff_of_occupied hqroot hq hmode').2 hsecond, ?_⟩
    exact bind_eq_ok_iff.2
      ⟨result, (apply_eq_ok_iff_of_occupied hproot hp' hmode).2 hbefore, rfl⟩

section Dashless

variable (hpath : path.isRoot = false) (hdash : "-" ∉ path.segments)

include hpath hdash

/-- An `add` that follows another one at its place makes what it makes alone. -/
theorem add_over_add {value' : Tree}
    (h : (Edit.write .add path value' flag).applyWith false doc = .ok doc') :
    ∃ result, (Edit.write .add path value flag).applyWith false doc' = .ok result ∧
      (Edit.write .add path value flag).applyWith false doc = .ok result := by
  have hwritten : Written (left .add value') path.segments doc doc' :=
    (writeAt_eq_ok_iff hpath (Tree.anchored_of_not_mem hdash doc)).1 h
  obtain ⟨result, halone⟩ := exists_written hwritten (left .add value)
  have hafter : Written (left .add value) path.segments doc' result := by
    refine written_over hwritten halone fun old => ?_
    cases old with
    | none => rfl
    | some old => rfl
  exact ⟨result, (writeAt_eq_ok_iff hpath (Tree.anchored_of_not_mem hdash doc')).2 hafter,
    (writeAt_eq_ok_iff hpath (Tree.anchored_of_not_mem hdash doc)).2 halone⟩

/-- Merging a value where it has just been merged changes nothing. -/
theorem merge_over_merge (hvalue : value.Distinct)
    (h : (Edit.write .merge path value flag).applyWith false doc = .ok doc') :
    (Edit.write .merge path value flag).applyWith false doc' = .ok doc' := by
  have hwritten : Written (left .merge value) path.segments doc doc' :=
    (writeAt_eq_ok_iff hpath (Tree.anchored_of_not_mem hdash doc)).1 h
  have hagain : ∀ old, left .merge value (some (left .merge value old)) = left .merge value old := by
    intro old
    cases old with
    | none => exact Tree.merge_self hvalue
    | some old => exact Tree.merge_merge_self value hvalue old
  exact (writeAt_eq_ok_iff hpath (Tree.anchored_of_not_mem hdash doc')).2
    (written_over hwritten hwritten hagain)

end Dashless

/-- **Independent writes commute, and repeated writes collapse.**  Two writes to places at which
    something stands, neither of them above the other, can be made in either order and make the
    same tree, unless one is an `add` that checks.  Along a path without dashes, an `add` that
    follows another one makes what it makes alone, and merging a value again changes nothing;
    that value is one that maps can build. -/
theorem writes_commute_and_collapse (doc : Tree) :
    (∀ (p q : Pointer) (mode mode' : WriteMode) (value value' : Tree) (flag flag' : Option Bool)
      (strictByDefault : Bool), Occupied p doc → Occupied q doc →
        ¬ p.segments <+: q.segments → ¬ q.segments <+: p.segments →
          (mode = .add → flag.getD strictByDefault = false) →
            (mode' = .add → flag'.getD strictByDefault = false) →
              ∃ result,
                applyAll strictByDefault [.write mode p value flag, .write mode' q value' flag'] doc
                  = .ok result ∧
                applyAll strictByDefault [.write mode' q value' flag', .write mode p value flag] doc
                  = .ok result) ∧
    ∀ path : Pointer, path.isRoot = false → "-" ∉ path.segments →
      (∀ (value value' doc' : Tree) (flag : Option Bool),
        (Edit.write .add path value' flag).applyWith false doc = .ok doc' →
          ∃ result, (Edit.write .add path value flag).applyWith false doc' = .ok result ∧
            (Edit.write .add path value flag).applyWith false doc = .ok result) ∧
      ∀ (value : Tree) (flag : Option Bool), value.Distinct →
        ((Edit.write .merge path value flag).applyWith false doc
            >>= (Edit.write .merge path value flag).applyWith false)
          = (Edit.write .merge path value flag).applyWith false doc := by
  refine ⟨?commute, fun path hpath hdash => ⟨?add, ?merge⟩⟩
  case commute =>
    intro p q mode mode' value value' flag flag' strictByDefault hp hq hpq hqp hmode hmode'
    exact applyAll_comm hp hq hpq hqp hmode hmode'
  case add =>
    intro value value' doc' flag h
    exact add_over_add hpath hdash h
  case merge =>
    intro value flag hvalue
    cases hmerge : (Edit.write .merge path value flag).applyWith false doc with
    | error e => rfl
    | ok doc' => exact merge_over_merge hpath hdash hvalue hmerge

/-- The first book of the shelf can be replaced before or after an owner is merged into the
    second one, though strictness is the default.  A third book is titled anew as if it had not
    been made for its first title, and merging the owner again changes nothing. -/
theorem writes_commute_and_collapse_shelf :
    applyAll true [.write .add ⟨["books", "0"]⟩ (.str "map") (some false),
        .write .merge ⟨["books", "1"]⟩ (.obj [("owner", .null)]) none] shelf
      = .ok (.obj [("books", .arr [.str "map",
        .obj [("title", .str "lexicon"), ("owner", .null)]])]) ∧
    applyAll true [.write .merge ⟨["books", "1"]⟩ (.obj [("owner", .null)]) none,
        .write .add ⟨["books", "0"]⟩ (.str "map") (some false)] shelf
      = .ok (.obj [("books", .arr [.str "map",
        .obj [("title", .str "lexicon"), ("owner", .null)]])]) ∧
    (∃ doc' result,
      (Edit.write .add ⟨["books", "2", "title"]⟩ (.str "gramar") none).applyWith false shelf
        = .ok doc' ∧
      (Edit.write .add ⟨["books", "2", "title"]⟩ (.str "grammar") none).applyWith false doc'
        = .ok result ∧
      (Edit.write .add ⟨["books", "2", "title"]⟩ (.str "grammar") none).applyWith false shelf
        = .ok result) ∧
    ((Edit.write .merge ⟨["books", "1"]⟩ (.obj [("owner", .null)]) none).applyWith false shelf
        >>= (Edit.write .merge ⟨["books", "1"]⟩ (.obj [("owner", .null)]) none).applyWith false)
      = (Edit.write .merge ⟨["books", "1"]⟩ (.obj [("owner", .null)]) none).applyWith false
        shelf := by
  obtain ⟨hcommute, hcollapse⟩ := writes_commute_and_collapse shelf
  have hfirst : applyAll true [.write .add ⟨["books", "0"]⟩ (.str "map") (some false),
        .write .merge ⟨["books", "1"]⟩ (.obj [("owner", .null)]) none] shelf
      = .ok (.obj [("books", .arr [.str "map",
        .obj [("title", .str "lexicon"), ("owner", .null)]])]) := rfl
  obtain ⟨result, hone, hother⟩ := hcommute ⟨["books", "0"]⟩ ⟨["books", "1"]⟩ .add .merge
    (.str "map") (.obj [("owner", .null)]) (some false) none true ⟨_, rfl⟩ ⟨_, rfl⟩ (by decide)
    (by decide) (fun _ => rfl) nofun
  obtain rfl := Except.ok.inj (hfirst.symm.trans hone)
  refine ⟨hfirst, hother, ?_, ?_⟩
  · have htitled : (Edit.write .add ⟨["books", "2", "title"]⟩ (.str "gramar") none).applyWith
        false shelf = .ok (.obj [("books", .arr [.str "atlas",
          .obj [("title", .str "lexicon")], .obj [("title", .str "gramar")]])]) := rfl
    obtain ⟨result, hafter, halone⟩ :=
      (hcollapse ⟨["books", "2", "title"]⟩ rfl (by decide)).1 (.str "grammar") _ _ none htitled
    exact ⟨_, result, htitled, hafter, halone⟩
  · exact (hcollapse ⟨["books", "1"]⟩ rfl (by decide)).2 (.obj [("owner", .null)]) none (by decide)

end DesignTokens.Edit
