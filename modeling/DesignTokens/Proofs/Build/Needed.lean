/-
  DesignTokens.Proofs.Build.Needed — the needed documents are built, each once.

  A document that exports something needs those of its imports that are to be built; a document
  that exports nothing is not opened, so it needs none.  A run of builds needs the documents that
  it is asked for and whatever these need, directly or through others.

  A stretch of building is described by what it was asked for and by the documents for which it
  started the work (`Work`).  Each of them was new and is needed, no one was started twice, and
  at the end the memo has all that was asked for.  One more thing is kept along the way: where a
  memo has a document, it has all that this document needs.  So the memo of a run, which starts
  out empty and ends up with all that was asked for, has everything that is needed.

  Main facts:
    * `Work.append`, `Work.finish` — stretches one after the other, and a document over its imports.
    * `work_build` — a build that succeeds is such a stretch.
    * `builds_exactly_needed` — which documents a run starts, and how often.
-/
import DesignTokens.Proofs.Build.Memo
import Mathlib.Data.List.Nodup

namespace DesignTokens

open Relation (ReflTransGen)

/-! ## §1. Needed documents -/

namespace Source

/-- A document that exports something needs the imports that are to be built. -/
def Needs (s t : Source) : Prop := s.hasExports = true ∧ ∃ key, (key, t, true) ∈ s.imports

/-- The path of a document that was asked for, or of one that is needed for it. -/
def Needed (asked : List Source) (path : DocPath) : Prop :=
  ∃ s ∈ asked, ∃ t, ReflTransGen Needs s t ∧ t.path = path

/-- The imports that are to be built. -/
def toBuild (imports : List (String × Source × Bool)) : List Source :=
  imports.filterMap fun (_, source, build) => if build then some source else none

theorem mem_toBuild_iff {imports : List (String × Source × Bool)} {t : Source} :
    t ∈ toBuild imports ↔ ∃ key, (key, t, true) ∈ imports := by
  simp [toBuild]

section Filter

variable {s : Source}

theorem needs_iff_of_filter {filter : ExportFilter} (h : s.exportFilter? = .ok (some filter))
    (t : Source) : s.Needs t ↔ t ∈ toBuild s.imports := by
  have hexports : s.hasExports = true := by
    unfold exportFilter? at h
    unfold hasExports
    split at h
    · cases h
    · next patterns hpatterns => rw [hpatterns]; rfl
  rw [mem_toBuild_iff]
  exact ⟨And.right, fun himport => ⟨hexports, himport⟩⟩

theorem needs_iff_of_silent (h : s.exportFilter? = .ok none) (t : Source) :
    s.Needs t ↔ t ∈ ([] : List Source) := by
  have hexports : s.hasExports = false := by
    unfold exportFilter? at h
    unfold hasExports
    split at h
    · next hpatterns => rw [hpatterns]; rfl
    · next patterns hpatterns => split at h <;> cases h
  refine ⟨fun hneeds => ?_, fun hmem => nomatch hmem⟩
  rw [Needs, hexports] at hneeds
  cases hneeds.1

end Filter

section Reached

variable {s t u : Source}

/-- A document holds what it needs, so it is larger. -/
theorem Needs.sizeOf_lt (h : s.Needs t) : sizeOf t < sizeOf s := by
  obtain ⟨-, key, hmem⟩ := h
  obtain ⟨location, data, directives, imports⟩ := s
  have hlist : sizeOf (key, t, true) < sizeOf imports := List.sizeOf_lt_of_mem hmem
  simp only [Prod.mk.sizeOf_spec] at hlist
  rw [mk.sizeOf_spec]
  omega

theorem sizeOf_le_of_reached (h : ReflTransGen Needs s t) : sizeOf t ≤ sizeOf s := by
  induction h with
  | refl => exact Nat.le_refl _
  | tail _ hneeds ih => exact Nat.le_trans (Nat.le_of_lt hneeds.sizeOf_lt) ih

variable {family : List Source} (hfamily : Coherent family) (hs : s ∈ family)

include hfamily hs

/-- A family has all that its documents need. -/
theorem mem_of_reached (h : ReflTransGen Needs s t) : t ∈ family := by
  induction h with
  | refl => exact hs
  | @tail u v _ hneeds ih =>
    obtain ⟨-, key, hmem⟩ := hneeds
    exact hfamily.imports_mem u ih (key, v, true) hmem

/-- **No document is needed for what it needs itself**, directly or through others. -/
theorem not_needed_of_needs {children : List Source}
    (hchildren : ∀ t ∈ children, s.Needs t) : ¬ Needed children s.path := by
  rintro ⟨t, ht, u, hreached, hpath⟩
  have hneeds : s.Needs t := hchildren t ht
  have hu : u ∈ family := mem_of_reached hfamily hs (.head hneeds hreached)
  obtain rfl : u = s := hfamily.eq_of_path u hu s hs hpath
  have hle : sizeOf u ≤ sizeOf t := sizeOf_le_of_reached hreached
  have hlt : sizeOf t < sizeOf u := hneeds.sizeOf_lt
  omega

end Reached

/-- What is needed for what a document needs is needed for the document. -/
theorem Needed.of_children {s : Source} {children : List Source} {path : DocPath}
    (hchildren : ∀ t ∈ children, s.Needs t) (h : Needed children path) : Needed [s] path := by
  obtain ⟨t, ht, u, hreached, hpath⟩ := h
  exact ⟨s, List.mem_singleton_self s, u, .head (hchildren t ht) hreached, hpath⟩

theorem Needed.mono {asked more : List Source} {path : DocPath} (h : Needed asked path)
    (hsub : ∀ s ∈ asked, s ∈ more) : Needed more path := by
  obtain ⟨s, hs, t, hreached, hpath⟩ := h
  exact ⟨s, hsub s hs, t, hreached, hpath⟩

end Source

open Source (Needs Needed toBuild)

/-! ## §2. Stretches of building -/

namespace BuildState

/-- The paths that have been built. -/
def builtPaths (state : BuildState) : List DocPath := Entries.keys state.memo

theorem isSome_built?_iff {state : BuildState} {path : DocPath} :
    (state.built? path).isSome = true ↔ path ∈ state.builtPaths := by
  have hnone : state.built? path = none ↔ path ∉ state.builtPaths := Entries.get?_eq_none_iff
  rw [Option.isSome_iff_ne_none, ne_eq, hnone, Decidable.not_not]

/-- What a document of a family needs has been built when the document has. -/
def Closed (family : List Source) (state : BuildState) : Prop :=
  ∀ s ∈ family, s.path ∈ state.builtPaths → ∀ t, s.Needs t → t.path ∈ state.builtPaths

/-- A stretch of building, from one state to another, that was asked for some documents and has
    started the work for those at the paths `added`. -/
structure Work (family asked : List Source) (state next : BuildState) (added : List DocPath) :
    Prop where
  started : next.started = state.started ++ added
  /-- No work is done again. -/
  fresh : ∀ path ∈ added, path ∉ state.builtPaths
  nodup : added.Nodup
  /-- What was started has been finished. -/
  built : ∀ path, path ∈ next.builtPaths ↔ path ∈ state.builtPaths ∨ path ∈ added
  needed : ∀ path ∈ added, Needed asked path
  done : ∀ s ∈ asked, s.path ∈ next.builtPaths
  closed : state.Closed family → next.Closed family

namespace Work

variable {family asked : List Source} {state mid next : BuildState}

/-- Nothing is to be done for what has been built. -/
theorem refl (family : List Source) (hdone : ∀ s ∈ asked, s.path ∈ state.builtPaths) :
    Work family asked state state [] where
  started := (List.append_nil _).symm
  fresh := fun _ h => nomatch h
  nodup := List.nodup_nil
  built := fun path => by simp
  needed := fun _ h => nomatch h
  done := hdone
  closed := id

theorem nil (family : List Source) (state : BuildState) : Work family [] state state [] :=
  refl family fun _ h => nomatch h

/-- **One stretch after the other**: the second one does not repeat the work of the first. -/
theorem append {more : List Source} {first second : List DocPath}
    (h₁ : Work family asked state mid first) (h₂ : Work family more mid next second) :
    Work family (asked ++ more) state next (first ++ second) where
  started := by rw [h₂.started, h₁.started, List.append_assoc]
  fresh := by
    intro path hpath hbuilt
    rcases List.mem_append.1 hpath with h | h
    · exact h₁.fresh path h hbuilt
    · exact h₂.fresh path h ((h₁.built path).2 (Or.inl hbuilt))
  nodup := by
    refine List.nodup_append.2 ⟨h₁.nodup, h₂.nodup, fun a ha b hb hab => ?_⟩
    have hmid : b ∈ mid.builtPaths := (h₁.built b).2 (Or.inr (hab ▸ ha))
    exact h₂.fresh b hb hmid
  built := by
    intro path
    rw [h₂.built, h₁.built, List.mem_append, or_assoc]
  needed := by
    intro path hpath
    rcases List.mem_append.1 hpath with h | h
    · exact (h₁.needed path h).mono fun s hs => List.mem_append_left more hs
    · exact (h₂.needed path h).mono fun s hs => List.mem_append_right asked hs
  done := by
    intro s hs
    rcases List.mem_append.1 hs with h | h
    · exact (h₂.built s.path).2 (Or.inl (h₁.done s h))
    · exact h₂.done s h
  closed := h₂.closed ∘ h₁.closed

/-- **A document over what it needs**: its work is started first and remembered last.  Nothing
    below it leads back to it, so its path stays free in between. -/
theorem finish {s : Source} {children : List Source} {added : List DocPath}
    (hfamily : Coherent family) (hs : s ∈ family) (hnew : state.built? s.path = none)
    (hneeds : ∀ t, s.Needs t ↔ t ∈ children)
    (h : Work family children (state.noteStart s.path) next added) (result : Option Tree) :
    Work family [s] state (next.remember s.path result) (s.path :: added) := by
  have hchildren : ∀ t ∈ children, s.Needs t := fun t ht => (hneeds t).2 ht
  have hfree : s.path ∉ state.builtPaths := Entries.get?_eq_none_iff.1 hnew
  have hother : s.path ∉ added := fun hmem =>
    Source.not_needed_of_needs hfamily hs hchildren (h.needed s.path hmem)
  have hbuilt : ∀ path, path ∈ (next.remember s.path result).builtPaths ↔
      path ∈ next.builtPaths ∨ path = s.path := fun path => Entries.mem_keys_put_iff
  refine ⟨?started, ?fresh, ?nodup, ?built, ?needed, ?done, ?closed⟩
  case started =>
    show next.started = state.started ++ s.path :: added
    rw [h.started]
    exact List.append_assoc state.started [s.path] added
  case fresh => exact List.forall_mem_cons.2 ⟨hfree, h.fresh⟩
  case nodup => exact List.nodup_cons.2 ⟨hother, h.nodup⟩
  case built =>
    intro path
    have hchild : path ∈ next.builtPaths ↔ path ∈ state.builtPaths ∨ path ∈ added := h.built path
    rw [hbuilt, hchild, List.mem_cons, or_assoc, or_comm (b := path = s.path)]
  case needed =>
    refine List.forall_mem_cons.2 ⟨?_, fun path hpath => ?_⟩
    · exact ⟨s, List.mem_singleton_self s, s, .refl, rfl⟩
    · exact (h.needed path hpath).of_children hchildren
  case done =>
    intro t ht
    rw [List.mem_singleton.1 ht]
    exact (hbuilt s.path).2 (Or.inr rfl)
  case closed =>
    intro hclosed t ht hmem u hu
    refine (hbuilt u.path).2 (Or.inl ?_)
    rcases (hbuilt t.path).1 hmem with hold | hpath
    · exact h.closed hclosed t ht hold u hu
    · -- the document itself: all that it needs was asked for before it is remembered
      obtain rfl : t = s := hfamily.eq_of_path t ht s hs hpath
      exact h.done u ((hneeds u).1 hu)

/-- At the end of a stretch that started from nothing, all that is needed has been built. -/
theorem built_of_needed (hfamily : Coherent family) (hasked : ∀ s ∈ asked, s ∈ family)
    {added : List DocPath} (h : Work family asked .empty next added) {path : DocPath}
    (hpath : Needed asked path) : path ∈ next.builtPaths := by
  have hclosed : next.Closed family := h.closed fun s _ hmem => nomatch hmem
  obtain ⟨s, hs, t, hreached, rfl⟩ := hpath
  induction hreached with
  | refl => exact h.done s hs
  | @tail u v hreached hneeds ih =>
    exact hclosed u (Source.mem_of_reached hfamily (hasked s hs) hreached) ih v hneeds

end Work

end BuildState

/-! ## §3. Builds -/

open BuildState (Work)

namespace Source

/-- **A build that succeeds is a stretch of building** that was asked for one document. -/
theorem work_build {strict : Bool} {family : List Source} (hfamily : Coherent family) :
    (∀ s state, s ∈ family → (s.build strict state).1.isOk = true →
      ∃ added, Work family [s] state (s.build strict state).2 added) ∧
    (∀ path imports doc state, (∀ imported ∈ imports, imported.2.1 ∈ family) →
      (spliceImports strict path imports doc state).1.isOk = true →
      ∃ added, Work family (toBuild imports) state
        (spliceImports strict path imports doc state).2 added) := by
  refine building_induction
    (P := fun s state r => s ∈ family → r.1.isOk = true →
      ∃ added, Work family [s] state r.2 added)
    (Q := fun _ imports _ state r => (∀ imported ∈ imports, imported.2.1 ∈ family) →
      r.1.isOk = true → ∃ added, Work family (toBuild imports) state r.2 added)
    ?memoized ?refused ?silent ?unspliced ?unfinished ?finished ?nil ?headFailed ?headSilent
    ?headBuilt ?headRaw
  -- a build that fails is not asked about
  case refused | unspliced | unfinished | headFailed => intros; contradiction
  case memoized =>
    intro s state result hbuilt _ _
    have hdone : s.path ∈ state.builtPaths :=
      BuildState.isSome_built?_iff.1 (Option.isSome_of_eq_some hbuilt)
    exact ⟨[], .refl family (List.forall_mem_singleton.2 hdone)⟩
  case silent =>
    intro s state hnew hfilter hs _
    have hnothing := Work.nil family (state.noteStart s.path)
    exact ⟨_, hnothing.finish hfamily hs hnew (needs_iff_of_silent hfilter) none⟩
  case finished =>
    intro s state filter doc result next hnew hfilter ih _ hs _
    obtain ⟨added, himports⟩ := ih (hfamily.imports_mem s hs) rfl
    exact ⟨_, himports.finish hfamily hs hnew (needs_iff_of_filter hfilter) (some result)⟩
  case nil =>
    intro path doc state _ _
    exact ⟨[], .nil family state⟩
  case headSilent =>
    intro path key source rest doc state mid r ih₁ ih₂ hmem hok
    obtain ⟨hsource, hrest⟩ := List.forall_mem_cons.1 hmem
    obtain ⟨first, hhead⟩ := ih₁ hsource rfl
    obtain ⟨second, htail⟩ := ih₂ hrest hok
    exact ⟨first ++ second, hhead.append htail⟩
  case headBuilt =>
    intro path key source rest doc state value mid r ih₁ ih₂ hmem hok
    obtain ⟨hsource, hrest⟩ := List.forall_mem_cons.1 hmem
    obtain ⟨first, hhead⟩ := ih₁ hsource rfl
    obtain ⟨second, htail⟩ := ih₂ hrest hok
    exact ⟨first ++ second, hhead.append htail⟩
  case headRaw =>
    intro path key source rest doc state r ih hmem hok
    -- a raw import is not asked for
    exact ih (List.forall_mem_cons.1 hmem).2 hok

end Source

/-! ## §4. Runs -/

namespace BuildState

theorem work_buildAll {strict : Bool} {family : List Source} (hfamily : Coherent family)
    {requests : List Source} (hrequests : ∀ s ∈ requests, s ∈ family) {state : BuildState}
    (hok : ∀ answer ∈ (buildAll strict requests state).1, answer.isOk = true) :
    ∃ added, Work family requests state (buildAll strict requests state).2 added := by
  induction requests generalizing state with
  | nil => exact ⟨[], .nil family state⟩
  | cons s rest ih =>
    obtain ⟨hs, hrest⟩ := List.forall_mem_cons.1 hrequests
    obtain ⟨hanswer, hanswers⟩ := List.forall_mem_cons.1 hok
    obtain ⟨first, hhead⟩ := (Source.work_build hfamily).1 s state hs hanswer
    obtain ⟨second, htail⟩ := ih hrest hanswers
    exact ⟨first ++ second, hhead.append htail⟩

/-- **The needed documents are built, each once, and no others.**  After a run of builds, all of
    which succeed, on documents of one loader, the work was started once for every document that
    was asked for or is needed for one of these, and never for another one; just these have
    results.  A document that was not asked for, and that is imported only as it is or only by
    documents that export nothing, is never built. -/
theorem builds_exactly_needed (l : Loader) (files : List String) (strict : Bool)
    (requests : List Source)
    (hrequests : ∀ s ∈ requests, s ∈ (l.loadAll files .empty).sources)
    (hok : ∀ answer ∈ (buildAll strict requests .empty).1, answer.isOk = true) :
    (∀ path, Needed requests path →
      (buildAll strict requests .empty).2.started.count path = 1) ∧
    (∀ path, ¬ Needed requests path → path ∉ (buildAll strict requests .empty).2.started) ∧
    (∀ path, ((buildAll strict requests .empty).2.built? path).isSome = true ↔
      Needed requests path) ∧
    (∀ t ∈ (l.loadAll files .empty).sources, t ∉ requests →
      (∀ s ∈ (l.loadAll files .empty).sources, ∀ key, (key, t, true) ∈ s.imports →
        s.hasExports = false) →
      t.path ∉ (buildAll strict requests .empty).2.started ∧
        (buildAll strict requests .empty).2.built? t.path = none) := by
  have hfamily : Coherent (l.loadAll files .empty).sources :=
    (l.cacheInvariant_loadAll files cacheInvariant_nil).coherent
  obtain ⟨added, hwork⟩ := work_buildAll hfamily hrequests hok
  have hstarted : (buildAll strict requests .empty).2.started = added := hwork.started
  have hbuilt : ∀ path, path ∈ (buildAll strict requests .empty).2.builtPaths ↔ path ∈ added :=
    fun path => by simpa [builtPaths, empty, Entries.keys] using hwork.built path
  have hneeded : ∀ path, path ∈ added ↔ Needed requests path := fun path =>
    ⟨hwork.needed path, fun h => (hbuilt path).1 (hwork.built_of_needed hfamily hrequests h)⟩
  refine ⟨?_, ?_, ?_, ?_⟩
  · intro path hpath
    rw [hstarted]
    exact List.count_eq_one_of_mem hwork.nodup ((hneeded path).2 hpath)
  · intro path hpath
    rw [hstarted, hneeded]
    exact hpath
  · intro path
    rw [isSome_built?_iff, hbuilt, hneeded]
  · intro t ht hnot hsilent
    have hunneeded : ¬ Needed requests t.path := by
      rintro ⟨s, hs, u, hreached, hpath⟩
      have hu : u ∈ (l.loadAll files .empty).sources :=
        Source.mem_of_reached hfamily (hrequests s hs) hreached
      obtain rfl : u = t := hfamily.eq_of_path u hu t ht hpath
      cases hreached with
      | refl => exact hnot hs
      | @tail v _ hv hneeds =>
        obtain ⟨hexports, key, hmem⟩ := hneeds
        have hvfamily := Source.mem_of_reached hfamily (hrequests s hs) hv
        rw [hsilent v hvfamily key hmem] at hexports
        cases hexports
    have hnone : t.path ∉ (buildAll strict requests .empty).2.builtPaths := by
      rw [hbuilt, hneeded]
      exact hunneeded
    refine ⟨?_, Entries.get?_eq_none_iff.2 hnone⟩
    rw [hstarted, hneeded]
    exact hunneeded

/-! ### A theme over a palette, some notes and a draft -/

/-- The documents by name.  The theme builds the palette and the draft and takes the notes as
    they are; the draft exports nothing, so the sketch behind it is not needed. -/
def boardDocuments : Entries Tree :=
  [("sketch", .obj [("$build", .obj [("exports", .arr [.str "**"])])]),
    ("draft", .obj [("$build", .obj [("imports", .obj [("sketch", .str "sketch")])])]),
    ("notes", .obj [("text", .str "later"), ("$build", .obj [("exports", .arr [.str "**"])])]),
    ("palette", .obj [("red", .str "#f00"), ("$build", .obj [("exports", .arr [.str "red"])])]),
    ("theme", .obj [("$build", .obj [("imports", .obj [("palette", .str "palette"),
        ("notes", .obj [("from", .str "notes"), ("build", .bool false)]),
        ("draft", .str "draft")]),
      ("exports", .arr [.str "**"])])])]

/-- The loader of the theme. -/
def boardLoader : Loader where
  io :=
    { resolve := fun file _ => .ok (samplePath file)
      files := boardDocuments.map fun (name, _) => (samplePath name, .empty)
      parse := fun _ path =>
        .ok ((Entries.get? path (boardDocuments.map fun (name, doc) => (samplePath name, doc))).getD
          .null) }
  root := ⟨true, [.name "tokens"]⟩

/-- What a document of the board exports, if it does. -/
def boardExports (pattern : String) : Option ExportPatterns := some ⟨[pattern], []⟩

/-- A loaded document of the board. -/
def boardSource (name : String) (data : Tree) (specs : Entries ImportSpec)
    (exports : Option ExportPatterns) (imports : List (String × Source × Bool)) : Source :=
  boardLoader.sourceOf name (samplePath name)
    { data, directives := some { imports := specs, patches := [], exports } } imports

/-- The loaded sketch. -/
def boardSketch : Source := boardSource "sketch" (.obj []) [] (boardExports "**") []

/-- The loaded draft. -/
def boardDraft : Source :=
  boardSource "draft" (.obj []) [("sketch", .file "sketch")] none [("sketch", boardSketch, true)]

/-- The loaded notes. -/
def boardNotes : Source :=
  boardSource "notes" (.obj [("text", .str "later")]) [] (boardExports "**") []

/-- The loaded palette. -/
def boardPalette : Source :=
  boardSource "palette" (.obj [("red", .str "#f00")]) [] (boardExports "red") []

/-- The loaded theme. -/
def boardTheme : Source :=
  boardSource "theme" (.obj [])
    [("palette", .file "palette"), ("notes", .detailed "notes" false), ("draft", .file "draft")]
    (boardExports "**")
    [("palette", boardPalette, true), ("notes", boardNotes, false), ("draft", boardDraft, true)]

/-- Loading the theme loads its imports first, in written order. -/
theorem sources_board : (boardLoader.loadAll ["theme"] .empty).sources
    = [boardPalette, boardNotes, boardSketch, boardDraft, boardTheme] := by
  -- a document without imports is read and kept
  have hpalette : ∀ state : LoadState, state.find? (samplePath "palette") = none →
      boardLoader.loadIn [samplePath "theme"] "palette" state
        = (.ok boardPalette,
            (state.noteRead (samplePath "palette")).keep (samplePath "palette") boardPalette) :=
    fun state hnew => Loader.loadIn_of_linked rfl hnew rfl Loader.loadImports_nil
  have hnotes : ∀ state : LoadState, state.find? (samplePath "notes") = none →
      boardLoader.loadIn [samplePath "theme"] "notes" state
        = (.ok boardNotes,
            (state.noteRead (samplePath "notes")).keep (samplePath "notes") boardNotes) :=
    fun state hnew => Loader.loadIn_of_linked rfl hnew rfl Loader.loadImports_nil
  have hsketch : ∀ state : LoadState, state.find? (samplePath "sketch") = none →
      boardLoader.loadIn [samplePath "theme", samplePath "draft"] "sketch" state
        = (.ok boardSketch,
            (state.noteRead (samplePath "sketch")).keep (samplePath "sketch") boardSketch) :=
    fun state hnew => Loader.loadIn_of_linked rfl hnew rfl Loader.loadImports_nil
  have htheme : boardLoader.loadIn [] "theme" .empty = (.ok boardTheme, _) :=
    Loader.loadIn_of_linked rfl rfl rfl
      (Loader.loadImports_of_loaded (hpalette _ rfl)
        (Loader.loadImports_of_loaded (hnotes _ rfl)
          (Loader.loadImports_of_loaded
            (Loader.loadIn_of_linked rfl rfl rfl
              (Loader.loadImports_of_loaded (hsketch _ rfl) Loader.loadImports_nil))
            Loader.loadImports_nil)))
  show (boardLoader.loadIn [] "theme" .empty).2.sources = _
  rw [htheme]
  rfl

/-- The palette is built once, for the theme, also where it is asked for again; the notes and the
    sketch are loaded but never built. -/
theorem builds_exactly_needed_board :
    (∀ s ∈ [boardTheme, boardPalette, boardTheme],
      s ∈ (boardLoader.loadAll ["theme"] .empty).sources) ∧
    (∀ answer ∈ (buildAll false [boardTheme, boardPalette, boardTheme] .empty).1,
      answer.isOk = true) ∧
    (buildAll false [boardTheme, boardPalette, boardTheme] .empty).2.started.count
      (samplePath "palette") = 1 ∧
    (∀ t ∈ [boardNotes, boardSketch],
      t.path ∉ (buildAll false [boardTheme, boardPalette, boardTheme] .empty).2.started) := by
  have hrequests : ∀ s ∈ [boardTheme, boardPalette, boardTheme],
      s ∈ (boardLoader.loadAll ["theme"] .empty).sources := by
    rw [sources_board]
    simp
  have hok : ∀ answer ∈ (buildAll false [boardTheme, boardPalette, boardTheme] .empty).1,
      answer.isOk = true := by decide +kernel
  obtain ⟨honce, -, -, hnever⟩ :=
    builds_exactly_needed boardLoader ["theme"] false _ hrequests hok
  -- the palette is needed for the theme
  have hneeds : boardTheme.Needs boardPalette := ⟨rfl, "palette", List.mem_cons_self⟩
  refine ⟨hrequests, hok, honce _ ⟨boardTheme, by simp, boardPalette, .single hneeds, rfl⟩, ?_⟩
  -- among the imports that are built for an exporting document there are no notes and no sketch
  have hunneeded : ∀ t ∈ [boardNotes, boardSketch],
      ∀ s ∈ [boardPalette, boardNotes, boardSketch, boardDraft, boardTheme],
        s.hasExports = true → ∀ other ∈ s.imports, other.2.2 = true → other.2.1.path ≠ t.path := by
    decide +kernel
  have hunasked : ∀ t ∈ [boardNotes, boardSketch],
      ∀ s ∈ [boardTheme, boardPalette, boardTheme], s.path ≠ t.path := by decide +kernel
  intro t ht
  refine (hnever t ?_ (fun hmem => hunasked t ht t hmem rfl) ?_).1
  · rw [sources_board]
    rcases List.mem_pair.1 ht with rfl | rfl <;> simp
  · intro s hs key hmem
    rw [sources_board] at hs
    exact Bool.eq_false_iff.2 fun hexports => hunneeded t ht s hs hexports _ hmem rfl rfl

end BuildState

end DesignTokens
