/-
  DesignTokens.Proofs.Build.Memo — remembering results changes no answer.

  What a document builds to is fixed by the document and its imports.  The memo of a builder is
  sound when all it holds are such outcomes, of documents of one family in which a path names one
  document.  A build asks a sound memo in place of doing the work, and it writes to the memo only
  when the work has succeeded, so the memo stays sound also where a build fails half way.

  Main facts:
    * `build_sound` — with a sound memo, a build answers with the outcome of the document.
    * `memo_transparent` — every build of a run answers as the build of a new builder would.
-/
import DesignTokens.Build.Builder
import DesignTokens.Proofs.Source.Cache

namespace DesignTokens

/-! ## §1. Outcomes -/

namespace Source

mutual

/-- What a document builds to, all its imports being built for it alone. -/
def outcome (strict : Bool) : Source → Except BuildError (Option Tree)
  | .mk location data directives imports =>
    let s := Source.mk location data directives imports
    match s.exportFilter? with
    | .error e => .error e
    | .ok none => .ok none
    | .ok (some filter) =>
      match splicedImports strict s.path imports data with
      | .error e => .error e
      | .ok doc => (Build.finish strict s filter doc).map some

/-- A document with its imports spliced in, each of them being built for it alone. -/
def splicedImports (strict : Bool) (path : DocPath) :
    List (String × Source × Bool) → Tree → Except BuildError Tree
  | [], doc => .ok doc
  | (key, source, true) :: rest, doc =>
    match outcome strict source with
    | .error e => .error (.imported path key e)
    | .ok none => splicedImports strict path rest doc
    | .ok (some value) => splicedImports strict path rest (Build.splice key value doc)
  | (key, source, false) :: rest, doc =>
    splicedImports strict path rest (Build.splice key source.data doc)

end

/-- The outcome of a document, by what its exports ask for. -/
theorem outcome_eq (strict : Bool) (s : Source) :
    s.outcome strict =
      match s.exportFilter? with
      | .error e => .error e
      | .ok none => .ok none
      | .ok (some filter) =>
        match splicedImports strict s.path s.imports s.data with
        | .error e => .error e
        | .ok doc => (Build.finish strict s filter doc).map some := by
  cases s
  rw [outcome]
  rfl

end Source

/-! ## §2. Sound memos -/

/-- A memo that holds nothing but outcomes of documents of a family. -/
def MemoSound (strict : Bool) (family : List Source) (state : BuildState) : Prop :=
  ∀ path result, (path, result) ∈ state.memo →
    ∃ s ∈ family, s.path = path ∧ s.outcome strict = .ok result

namespace MemoSound

variable {strict : Bool} {family : List Source} {state : BuildState}

theorem empty (strict : Bool) (family : List Source) : MemoSound strict family .empty := by
  intro path result h
  simp [BuildState.empty] at h

/-- In a coherent family, what a memo answers for a document is its outcome. -/
theorem outcome_of_built (h : MemoSound strict family state) (hfamily : Coherent family)
    {s : Source} (hs : s ∈ family) {result : Option Tree}
    (hbuilt : state.built? s.path = some result) : s.outcome strict = .ok result := by
  obtain ⟨t, ht, hpath, houtcome⟩ := h s.path result (Entries.mem_of_get? hbuilt)
  rw [hfamily.eq_of_path s hs t ht hpath.symm]
  exact houtcome

/-- A family may grow under a sound memo. -/
theorem mono (h : MemoSound strict family state) {larger : List Source}
    (hsub : ∀ s ∈ family, s ∈ larger) : MemoSound strict larger state := by
  intro path result hmem
  obtain ⟨s, hs, hpath, houtcome⟩ := h path result hmem
  exact ⟨s, hsub s hs, hpath, houtcome⟩

theorem noteStart (h : MemoSound strict family state) (path : DocPath) :
    MemoSound strict family (state.noteStart path) := h

/-- A memo stays sound when the outcome of a document is remembered. -/
theorem remember (h : MemoSound strict family state) {s : Source} (hs : s ∈ family)
    {result : Option Tree} (houtcome : s.outcome strict = .ok result) :
    MemoSound strict family (state.remember s.path result) := by
  intro path other hmem
  rcases Entries.mem_put hmem with heq | hmem
  · obtain ⟨rfl, rfl⟩ : path = s.path ∧ other = result := by simpa using heq
    exact ⟨s, hs, rfl, houtcome⟩
  · exact h path other hmem

end MemoSound

/-! ## §3. Builds -/

namespace Source

/-- **With a sound memo, a build answers with the outcome of the document**, and it leaves a
    sound memo behind, also where it fails. -/
theorem build_sound {strict : Bool} {family : List Source} (hfamily : Coherent family) :
    (∀ s state, s ∈ family → MemoSound strict family state →
      (s.build strict state).1 = s.outcome strict ∧
        MemoSound strict family (s.build strict state).2) ∧
    (∀ path imports doc state, (∀ imported ∈ imports, imported.2.1 ∈ family) →
      MemoSound strict family state →
      (spliceImports strict path imports doc state).1 = splicedImports strict path imports doc ∧
        MemoSound strict family (spliceImports strict path imports doc state).2) := by
  refine building_induction
    (P := fun s state r => s ∈ family → MemoSound strict family state →
      r.1 = s.outcome strict ∧ MemoSound strict family r.2)
    (Q := fun path imports doc state r => (∀ imported ∈ imports, imported.2.1 ∈ family) →
      MemoSound strict family state →
      r.1 = splicedImports strict path imports doc ∧ MemoSound strict family r.2)
    ?memoized ?refused ?silent ?unspliced ?unfinished ?finished ?nil ?headFailed ?headSilent
    ?headBuilt ?headRaw
  case memoized =>
    intro s state result hbuilt hs hmemo
    exact ⟨(hmemo.outcome_of_built hfamily hs hbuilt).symm, hmemo⟩
  case refused =>
    intro s state e _ hfilter _ hmemo
    refine ⟨?_, hmemo.noteStart s.path⟩
    rw [outcome_eq, hfilter]
  case silent =>
    intro s state _ hfilter hs hmemo
    have houtcome : s.outcome strict = .ok none := by rw [outcome_eq, hfilter]
    exact ⟨houtcome.symm, (hmemo.noteStart s.path).remember hs houtcome⟩
  case unspliced =>
    intro s state filter e next _ hfilter ih hs hmemo
    obtain ⟨hsplice, hnext⟩ := ih (hfamily.imports_mem s hs) (hmemo.noteStart s.path)
    refine ⟨?_, hnext⟩
    rw [outcome_eq, hfilter]
    dsimp only
    rw [← hsplice]
  case unfinished =>
    intro s state filter doc e next _ hfilter ih hfinish hs hmemo
    obtain ⟨hsplice, hnext⟩ := ih (hfamily.imports_mem s hs) (hmemo.noteStart s.path)
    refine ⟨?_, hnext⟩
    rw [outcome_eq, hfilter]
    dsimp only
    rw [← hsplice]
    dsimp only
    rw [hfinish]
    rfl
  case finished =>
    intro s state filter doc result next _ hfilter ih hfinish hs hmemo
    obtain ⟨hsplice, hnext⟩ := ih (hfamily.imports_mem s hs) (hmemo.noteStart s.path)
    have houtcome : s.outcome strict = .ok (some result) := by
      rw [outcome_eq, hfilter]
      dsimp only
      rw [← hsplice]
      dsimp only
      rw [hfinish]
      rfl
    exact ⟨houtcome.symm, hnext.remember hs houtcome⟩
  case nil =>
    intro path doc state _ hmemo
    exact ⟨rfl, hmemo⟩
  case headFailed =>
    intro path key source rest doc state e next ih hmem hmemo
    obtain ⟨hhead, hnext⟩ := ih (hmem _ List.mem_cons_self) hmemo
    refine ⟨?_, hnext⟩
    rw [splicedImports, ← hhead]
  case headSilent =>
    intro path key source rest doc state mid r ih₁ ih₂ hmem hmemo
    obtain ⟨hhead, hmid⟩ := ih₁ (hmem _ List.mem_cons_self) hmemo
    obtain ⟨htail, hnext⟩ := ih₂ (fun i hi => hmem i (List.mem_cons_of_mem _ hi)) hmid
    refine ⟨?_, hnext⟩
    rw [splicedImports, ← hhead]
    exact htail
  case headBuilt =>
    intro path key source rest doc state value mid r ih₁ ih₂ hmem hmemo
    obtain ⟨hhead, hmid⟩ := ih₁ (hmem _ List.mem_cons_self) hmemo
    obtain ⟨htail, hnext⟩ := ih₂ (fun i hi => hmem i (List.mem_cons_of_mem _ hi)) hmid
    refine ⟨?_, hnext⟩
    rw [splicedImports, ← hhead]
    exact htail
  case headRaw =>
    intro path key source rest doc state r ih hmem hmemo
    obtain ⟨htail, hnext⟩ := ih (fun i hi => hmem i (List.mem_cons_of_mem _ hi)) hmemo
    refine ⟨?_, hnext⟩
    rw [splicedImports]
    exact htail

/-- A new builder answers with the outcome of the document. -/
theorem build_empty {family : List Source} (hfamily : Coherent family) (strict : Bool)
    {s : Source} (hs : s ∈ family) : (s.build strict .empty).1 = s.outcome strict :=
  ((build_sound hfamily).1 s .empty hs (.empty strict family)).1

end Source

/-! ## §4. Runs -/

namespace BuildState

/-- Builds documents one after the other, whatever comes of each: the answers, and the state
    at the end. -/
def buildAll (strict : Bool) :
    List Source → BuildState → List (Except BuildError (Option Tree)) × BuildState
  | [], state => ([], state)
  | s :: rest, state =>
    let (answer, state) := s.build strict state
    let (answers, state) := buildAll strict rest state
    (answer :: answers, state)

theorem buildAll_sound {strict : Bool} {family : List Source} (hfamily : Coherent family)
    {requests : List Source} (hrequests : ∀ s ∈ requests, s ∈ family) {state : BuildState}
    (hmemo : MemoSound strict family state) :
    (buildAll strict requests state).1 = requests.map (Source.outcome strict) ∧
      MemoSound strict family (buildAll strict requests state).2 := by
  induction requests generalizing state with
  | nil => exact ⟨rfl, hmemo⟩
  | cons s rest ih =>
    obtain ⟨hanswer, hnext⟩ :=
      (Source.build_sound hfamily).1 s state (hrequests s List.mem_cons_self) hmemo
    obtain ⟨hanswers, hend⟩ := ih (fun t ht => hrequests t (List.mem_cons_of_mem _ ht)) hnext
    refine ⟨?_, hend⟩
    show (s.build strict state).1 :: (buildAll strict rest (s.build strict state).2).1 = _
    rw [hanswer, hanswers, List.map_cons]

/-- **Remembering results changes no answer.**  Whatever documents of one loader are built in
    whatever order, each build answers as the build of a new builder would.  After the run, all
    that the memo holds are answers of a new builder, and a document whose build fails is not
    in it. -/
theorem memo_transparent (l : Loader) (files : List String) (strict : Bool)
    (requests : List Source)
    (hrequests : ∀ s ∈ requests, s ∈ (l.loadAll files .empty).sources) :
    (buildAll strict requests .empty).1
        = requests.map (fun s => (s.build strict .empty).1) ∧
      (∀ path result, (path, result) ∈ (buildAll strict requests .empty).2.memo →
        ∃ s ∈ (l.loadAll files .empty).sources,
          s.path = path ∧ (s.build strict .empty).1 = .ok result) ∧
      (∀ s ∈ (l.loadAll files .empty).sources, ∀ result,
        (buildAll strict requests .empty).2.built? s.path = some result →
        (s.build strict .empty).1 = .ok result) ∧
      (∀ s ∈ (l.loadAll files .empty).sources, ∀ e, (s.build strict .empty).1 = .error e →
        (buildAll strict requests .empty).2.built? s.path = none) := by
  have hinv : CacheInvariant (l.loadAll files .empty).cache :=
    l.cacheInvariant_loadAll files cacheInvariant_nil
  have hfamily : Coherent (l.loadAll files .empty).sources := hinv.coherent
  obtain ⟨hanswers, hmemo⟩ :=
    buildAll_sound hfamily hrequests (MemoSound.empty strict _)
  have hbuilt : ∀ s ∈ (l.loadAll files .empty).sources, ∀ result,
      (buildAll strict requests .empty).2.built? s.path = some result →
      (s.build strict .empty).1 = .ok result := by
    intro s hs result hresult
    rw [Source.build_empty hfamily strict hs]
    exact hmemo.outcome_of_built hfamily hs hresult
  refine ⟨?_, ?_, hbuilt, ?_⟩
  · rw [hanswers]
    exact List.map_congr_left fun s hs =>
      (Source.build_empty hfamily strict (hrequests s hs)).symm
  · intro path result hmem
    obtain ⟨s, hs, hpath, houtcome⟩ := hmemo path result hmem
    exact ⟨s, hs, hpath, (Source.build_empty hfamily strict hs).trans houtcome⟩
  · intro s hs e hfail
    cases hresult : (buildAll strict requests .empty).2.built? s.path with
    | none => rfl
    | some result =>
      rw [hbuilt s hs result hresult] at hfail
      simp at hfail

/-! ### A theme that fails over a palette that does not -/

/-- A document in the folder of the sample. -/
def samplePath (name : String) : DocPath := ⟨true, [.name "tokens", .name name]⟩

/-- The palette of the sample. -/
def samplePalette : Tree :=
  .obj [("red", .str "#f00"), ("$build", .obj [("exports", .arr [.str "red"])])]

/-- The theme of the sample: it removes something that is not there. -/
def sampleTheme : Tree :=
  .obj [("$build", .obj [("imports", .obj [("palette", .str "palette")]),
    ("patches", .arr [.obj [("strict", .bool true),
      ("operations", .arr [.obj [("op", .str "remove"), ("path", .str "/x")]])]]),
    ("exports", .arr [.str "**"])])]

/-- A theme and the palette that it imports. -/
def sampleLoader : Loader where
  io :=
    { resolve := fun file _ => .ok (samplePath file)
      files := [(samplePath "palette", .empty), (samplePath "theme", .empty)]
      parse := fun _ path =>
        .ok (if path = samplePath "palette" then samplePalette else sampleTheme) }
  root := ⟨true, [.name "tokens"]⟩

/-- The loaded palette. -/
def samplePaletteSource : Source :=
  sampleLoader.sourceOf "palette" (samplePath "palette")
    { data := .obj [("red", .str "#f00")]
      directives := some { imports := [], patches := [], exports := some ⟨["red"], []⟩ } }
    []

/-- The loaded theme. -/
def sampleThemeSource : Source :=
  sampleLoader.sourceOf "theme" (samplePath "theme")
    { data := .obj []
      directives := some
        { imports := [("palette", .file "palette")]
          patches :=
            [{ name := none, strict := some true, matrix := none,
               operations := [.remove (.pointer "/x") none] }]
          exports := some ⟨["**"], []⟩ } }
    [("palette", samplePaletteSource, true)]

/-- Loading the theme loads the palette first. -/
theorem sources_sample :
    (sampleLoader.loadAll ["theme"] .empty).sources
      = [samplePaletteSource, sampleThemeSource] := by
  have hpalette : sampleLoader.loadIn [samplePath "theme"] "palette"
      (LoadState.empty.noteRead (samplePath "theme"))
        = (.ok samplePaletteSource,
            ((LoadState.empty.noteRead (samplePath "theme")).noteRead
              (samplePath "palette")).keep (samplePath "palette") samplePaletteSource) :=
    Loader.loadIn_of_linked rfl rfl rfl Loader.loadImports_nil
  have htheme : sampleLoader.load "theme" .empty
      = (.ok sampleThemeSource,
          (((LoadState.empty.noteRead (samplePath "theme")).noteRead
            (samplePath "palette")).keep (samplePath "palette") samplePaletteSource).keep
              (samplePath "theme") sampleThemeSource) :=
    Loader.loadIn_of_linked rfl rfl rfl
      (Loader.loadImports_of_loaded hpalette Loader.loadImports_nil)
  show (sampleLoader.load "theme" .empty).2.sources = _
  rw [htheme]
  rfl

/-- The theme fails over the palette that was built for it, the palette is then taken from the
    memo, and the theme fails again. -/
theorem memo_transparent_sample :
    (∀ s ∈ [sampleThemeSource, samplePaletteSource, sampleThemeSource],
      s ∈ (sampleLoader.loadAll ["theme"] .empty).sources) ∧
    (sampleThemeSource.build false .empty).1.isOk = false ∧
    (samplePaletteSource.build false .empty).1.isOk = true ∧
    (buildAll false [sampleThemeSource, samplePaletteSource, sampleThemeSource] .empty).1
      = [(sampleThemeSource.build false .empty).1, (samplePaletteSource.build false .empty).1,
          (sampleThemeSource.build false .empty).1] := by
  have hrequests : ∀ s ∈ [sampleThemeSource, samplePaletteSource, sampleThemeSource],
      s ∈ (sampleLoader.loadAll ["theme"] .empty).sources := by
    rw [sources_sample]
    simp
  exact ⟨hrequests, by decide +kernel, by decide +kernel,
    (memo_transparent sampleLoader ["theme"] false _ hrequests).1⟩

end BuildState

end DesignTokens
