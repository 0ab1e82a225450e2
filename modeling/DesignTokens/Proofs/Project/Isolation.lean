/-
  DesignTokens.Proofs.Project.Isolation — the entries of a project do not touch each other.

  A check goes through its entries with one loader and one builder, so an entry finds loaded and
  built what the entries before it have left, those that failed among them.  What an entry comes
  to can be told without any of this: its reference is unfolded, and the document that it means
  is built for it alone (`Setup.result?`).

  A state is sound when its cache is in order and true and its memo holds nothing but outcomes of
  loaded documents.  A check starts from a sound state, an entry leaves one behind whatever comes
  of it, and from a sound state an entry comes to its result.  So the lines of a check are those
  of its entries, and it fails where one of them does.

  Main facts:
    * `outcome_unspelled` — what a document builds to does not depend on how it was referred to.
    * `tokens_of_sound` — from a sound state an entry comes to its result.
    * `step_of_sound`, `run_of_sound` — one entry of a check, and all of them.
    * `check_isolates_entries` — what a check prints and answers, entry by entry.
-/
import DesignTokens.Cli.Run
import DesignTokens.Proofs.Build.Memo
import DesignTokens.Proofs.Source.History
import DesignTokens.Proofs.Source.Reads

namespace DesignTokens

/-! ## §1. Outcomes without spellings -/

namespace Source

theorem keys_unspelledImports (imports : List (String × Source × Bool)) :
    (unspelledImports imports).map Prod.fst = imports.map Prod.fst := by
  induction imports with
  | nil => rfl
  | cons imported rest ih =>
    obtain ⟨key, source, build⟩ := imported
    rw [unspelledImports, List.map_cons, List.map_cons, ih]

section Unspelled

variable (s : Source)

theorem path_unspelled : s.unspelled.path = s.path := by cases s; rfl

theorem data_unspelled : s.unspelled.data = s.data := by cases s; rfl

theorem directives_unspelled : s.unspelled.directives = s.directives := by cases s; rfl

theorem imports_unspelled : s.unspelled.imports = unspelledImports s.imports := by cases s; rfl

theorem exportFilter?_unspelled : s.unspelled.exportFilter? = s.exportFilter? := by
  unfold exportFilter? exportPatterns?
  rw [directives_unspelled, path_unspelled]

theorem finish_unspelled (strict : Bool) (filter : ExportFilter) (doc : Tree) :
    Build.finish strict s.unspelled filter doc = Build.finish strict s filter doc := by
  unfold Build.finish
  rw [directives_unspelled, path_unspelled, imports_unspelled, keys_unspelledImports]

/-- The outcome of a document, once this is known of its imports. -/
theorem outcome_unspelled_of_imports {strict : Bool}
    (himports : splicedImports strict s.path (unspelledImports s.imports) s.data
      = splicedImports strict s.path s.imports s.data) :
    s.unspelled.outcome strict = s.outcome strict := by
  rw [outcome_eq, outcome_eq strict s, exportFilter?_unspelled, path_unspelled,
    imports_unspelled, data_unspelled, himports]
  simp only [finish_unspelled]

end Unspelled

mutual

/-- **What a document builds to does not depend on the references** by which it and its imports
    were loaded. -/
theorem outcome_unspelled (strict : Bool) :
    (s : Source) → s.unspelled.outcome strict = s.outcome strict
  | .mk location data directives imports =>
    outcome_unspelled_of_imports (.mk location data directives imports)
      (splicedImports_unspelled strict location.path imports data)

theorem splicedImports_unspelled (strict : Bool) (path : DocPath) :
    (imports : List (String × Source × Bool)) → (doc : Tree) →
    splicedImports strict path (unspelledImports imports) doc
      = splicedImports strict path imports doc
  | [], doc => rfl
  | (key, source, true) :: rest, doc => by
    rw [unspelledImports, splicedImports, splicedImports, outcome_unspelled strict source]
    split
    · rfl
    · exact splicedImports_unspelled strict path rest doc
    · exact splicedImports_unspelled strict path rest _
  | (key, source, false) :: rest, doc => by
    rw [unspelledImports, splicedImports, splicedImports, data_unspelled]
    exact splicedImports_unspelled strict path rest _

end

end Source

namespace Project

/-! ## §2. Results -/

/-- What an entry comes to when nothing is remembered: the tokens of the document that it means,
    unless that cannot be loaded or built. -/
def Setup.result? (s : Setup) (w : Workspace) (e : EntryConfig) : Option TokenTable := do
  let source ← ((s.loader w).unfold e.file).toOption
  let exports ← (source.outcome false).toOption
  return .ofTree (s.stem e) (exports.getD (.obj []))

/-- Whether an entry fails. -/
def Setup.fails (s : Setup) (w : Workspace) (e : EntryConfig) : Bool := (s.result? w e).isNone

/-- The lines that an entry is reported with: one, unless it fails. -/
def Setup.report (s : Setup) (w : Workspace) (e : EntryConfig) : List String :=
  ((s.result? w e).map (reportLine e)).toList

theorem report_of_fails {s : Setup} {w : Workspace} {e : EntryConfig} (h : s.fails w e = true) :
    s.report w e = [] := by
  have hnone : s.result? w e = none := Option.isNone_iff_eq_none.1 h
  unfold Setup.report
  rw [hnone]
  rfl

/-- The configuration with other entries. -/
def Setup.listing (s : Setup) (entries : List EntryConfig) : Setup :=
  { s with config := { s.config with entries } }

/-! ## §3. Sound states -/

/-- What has been loaded is in order and true, and what has been built are outcomes of it. -/
structure Sound (l : Loader) (loads : LoadState) (builds : BuildState) : Prop where
  inOrder : CacheInvariant loads.cache
  cacheTrue : l.CacheTrue loads
  memoSound : MemoSound false loads.sources builds

namespace Sound

variable {l : Loader} {loads : LoadState} {builds : BuildState}

theorem empty (l : Loader) : Sound l .empty .empty where
  inOrder := cacheInvariant_nil
  cacheTrue := l.cacheTrue_empty
  memoSound := .empty false _

/-- A load leaves a sound state, also where it fails: the memo speaks about documents that stay
    loaded. -/
theorem load (h : Sound l loads builds) (file : String) : Sound l (l.load file loads).2 builds where
  inOrder := l.cacheInvariant_load file h.inOrder
  cacheTrue := Loader.cacheTrue_load file h.cacheTrue
  memoSound := h.memoSound.mono fun _ hs =>
    ((l.prefix_cache_load file loads).map Prod.snd).subset hs

/-- A build of a loaded document leaves a sound state, and answers with its outcome. -/
theorem build (h : Sound l loads builds) {source : Source} (hsource : source ∈ loads.sources) :
    (source.build false builds).1 = source.outcome false ∧
      Sound l loads (source.build false builds).2 := by
  obtain ⟨hanswer, hmemo⟩ :=
    (Source.build_sound h.inOrder.coherent).1 source builds hsource h.memoSound
  exact ⟨hanswer, h.inOrder, h.cacheTrue, hmemo⟩

/-- What a load answers is loaded, and builds to what its reference means. -/
theorem loaded (h : Sound l loads builds) {file : String} {source : Source}
    (hload : (l.load file loads).1 = .ok source) :
    source ∈ (l.load file loads).2.sources ∧
      ∃ meant, l.unfold file = .ok meant ∧ meant.outcome false = source.outcome false := by
  refine ⟨List.mem_map.2 ⟨_, Loader.mem_cache_of_load h.inOrder hload, rfl⟩, ?_⟩
  have hunfold := Loader.load_eq_unfold h.cacheTrue file
  rw [hload] at hunfold
  obtain ⟨meant, hmeant, hsame⟩ := map_eq_ok_iff.1 hunfold.symm
  refine ⟨meant, hmeant, ?_⟩
  rw [← Source.outcome_unspelled, hsame, Source.outcome_unspelled]

theorem failed (h : Sound l loads builds) {file : String} {e : LoadError}
    (hload : (l.load file loads).1 = .error e) : l.unfold file = .error e :=
  (eq_error_iff_of_map_eq (Loader.load_eq_unfold h.cacheTrue file) e).1 hload

end Sound

/-! ## §4. One entry -/

section Entry

variable {s : Setup} {p : Progress}

/-- **From a sound state an entry comes to its result**, and it leaves a sound state behind,
    whatever comes of it. -/
theorem tokens_of_sound (h : Sound (s.loader p.workspace) p.loads p.builds) (e : EntryConfig) :
    (p.tokens s e).1 = s.result? p.workspace e ∧
      Sound (s.loader p.workspace) (p.tokens s e).2.1 (p.tokens s e).2.2 := by
  have hnext := h.load e.file
  unfold Progress.tokens Setup.result?
  cases hload : (s.loader p.workspace).load e.file p.loads with
  | mk answer loads =>
  rw [hload] at hnext
  cases answer with
  | error fault =>
    have hunfold := h.failed (congrArg Prod.fst hload)
    rw [hunfold]
    exact ⟨rfl, hnext⟩
  | ok source =>
    -- the source may be spelled as an earlier entry spelled it, and may have been built for one
    obtain ⟨hsource, meant, hmeant, hsame⟩ := h.loaded (congrArg Prod.fst hload)
    rw [hload] at hsource
    obtain ⟨hbuilt, hend⟩ := hnext.build hsource
    rw [hmeant]
    show _ = ((meant.outcome false).toOption.bind fun exports =>
      some (TokenTable.ofTree (s.stem e) (exports.getD (.obj [])))) ∧ _
    rw [hsame, ← hbuilt]
    dsimp only
    cases hbuild : source.build false p.builds with
    | mk outcome builds =>
    rw [hbuild] at hend
    cases outcome with
    | error fault => exact ⟨rfl, hend⟩
    | ok exports => exact ⟨rfl, hend⟩

/-- One entry of a check: it prints its lines and counts as failed if it has none. -/
theorem step_of_sound (h : Sound (s.loader p.workspace) p.loads p.builds) (e : EntryConfig) :
    Sound (s.loader p.workspace) (p.step s false e).loads (p.step s false e).builds ∧
      (p.step s false e).lines = p.lines ++ s.report p.workspace e ∧
      (p.step s false e).failed
        = p.failed + if s.fails p.workspace e then 1 else 0 := by
  obtain ⟨hresult, hnext⟩ := tokens_of_sound h e
  unfold Progress.step Setup.report Setup.fails
  rw [← hresult]
  cases htokens : p.tokens s e with
  | mk table rest =>
  rw [htokens] at hnext
  cases table with
  | none => exact ⟨hnext, (List.append_nil _).symm, rfl⟩
  | some table => exact ⟨hnext, rfl, rfl⟩

end Entry

/-! ## §5. All entries -/

/-- A check of entries, one after the other, from a sound state. -/
theorem run_of_sound {s : Setup} (entries : List EntryConfig) {p : Progress}
    (h : Sound (s.loader p.workspace) p.loads p.builds) :
    (entries.foldl (Progress.step s false) p).workspace = p.workspace ∧
      (entries.foldl (Progress.step s false) p).lines
        = p.lines ++ entries.flatMap (s.report p.workspace) ∧
      (entries.foldl (Progress.step s false) p).failed
        = p.failed + entries.countP (s.fails p.workspace) := by
  induction entries generalizing p with
  | nil => exact ⟨rfl, (List.append_nil _).symm, rfl⟩
  | cons e rest ih =>
    obtain ⟨hsound, hlines, hfailed⟩ := step_of_sound h e
    -- a check writes nothing, so the next entry has the loader of this one
    have hworkspace : (p.step s false e).workspace = p.workspace := tree_step_of_check s p e
    obtain ⟨hw, hl, hf⟩ := ih (p := p.step s false e) (hworkspace ▸ hsound)
    rw [hworkspace] at hw hl hf
    refine ⟨hw, ?_, ?_⟩
    · show (rest.foldl (Progress.step s false) (p.step s false e)).lines = _
      rw [hl, hlines, List.flatMap_cons, List.append_assoc]
    · show (rest.foldl (Progress.step s false) (p.step s false e)).failed = _
      rw [hf, hfailed, List.countP_cons]
      omega

/-- **What a check of a configuration comes to**, if it lists entries: the lines of the entries
    in order, and a failure that counts those that have no result. -/
theorem check_eq (s : Setup) (w : Workspace) (hentries : s.config.entries ≠ []) :
    s.build none false w =
      let count := s.config.entries.countP (s.fails w)
      { lines := s.config.entries.flatMap (s.report w)
        failure := if count = 0 then none else some (.failed count s.config.entries.length)
        workspace := w } := by
  have hselected : s.config.selected none = s.config.entries := List.filter_eq_self.2 fun _ _ => rfl
  obtain ⟨hworkspace, hlines, hfailed⟩ :=
    run_of_sound s.config.entries (p := .start w) (Sound.empty (s.loader w))
  unfold Setup.build
  rw [hselected]
  split
  · next hnone => exact absurd hnone hentries
  · next hsome =>
    show Report.mk _ _ _ = _
    rw [hworkspace, hlines, hfailed]
    simp only [Progress.start, Nat.zero_add, List.nil_append]

section Check

variable (s : Setup) (w : Workspace)

/-- A check fails where an entry does. -/
theorem failure_eq_none_iff (hentries : s.config.entries ≠ []) :
    (s.build none false w).failure = none ↔ ∀ e ∈ s.config.entries, s.fails w e = false := by
  have hcount : s.config.entries.countP (s.fails w) = 0 ↔
      ∀ e ∈ s.config.entries, s.fails w e = false := by
    rw [List.countP_eq_zero]
    exact forall₂_congr fun e _ => Bool.eq_false_iff.symm
  rw [check_eq s w hentries, ← hcount]
  dsimp only
  split
  · next hzero => exact ⟨fun _ => hzero, fun _ => rfl⟩
  · next hsome => exact ⟨fun h => (nomatch h), fun h => absurd h hsome⟩

/-- What a check leaves behind when the configuration lists one entry alone. -/
def Setup.alone (e : EntryConfig) : Report BuildFailure := (s.listing [e]).build none false w

theorem alone_eq (e : EntryConfig) :
    s.alone w e =
      { lines := s.report w e
        failure := if s.fails w e then some (.failed 1 1) else none
        workspace := w } := by
  unfold Setup.alone
  rw [check_eq (s.listing [e]) w (List.cons_ne_nil e [])]
  show Report.mk ([e].flatMap (s.report w))
    (if [e].countP (s.fails w) = 0 then none
      else some (BuildFailure.failed ([e].countP (s.fails w)) 1)) w = _
  rw [List.flatMap_singleton, List.countP_singleton]
  cases s.fails w e <;> rfl

theorem failure_alone_iff (e : EntryConfig) :
    (s.alone w e).failure = none ↔ s.fails w e = false := by
  rw [alone_eq]
  cases s.fails w e <;> simp

end Check

/-! ## §6. Isolation -/

/-- Over files that have the same bytes wherever its load reads, an entry has the same result. -/
theorem result?_of_agree {s : Setup} {w other : Workspace} {e : EntryConfig}
    (hhere : other.here = w.here)
    (hagree : Loader.AgreeOn (s.loader w) (s.loader other)
      ((s.loader w).load e.file .empty).2) : s.result? other e = s.result? w e := by
  have hroot : (s.loader other).root = (s.loader w).root := by
    show s.sourceRoot other = s.sourceRoot w
    unfold Setup.sourceRoot
    rw [hhere]
  have hload : (s.loader other).load e.file .empty = (s.loader w).load e.file .empty :=
    Loader.load_eq_of_reads ⟨hroot, rfl, rfl⟩ hagree
  -- both are what the entry comes to from the state in which nothing is loaded
  have hw := (tokens_of_sound (p := .start w) (Sound.empty (s.loader w)) e).1
  have hother := (tokens_of_sound (p := .start other) (Sound.empty (s.loader other)) e).1
  have htokens : (Progress.start other).tokens s e = (Progress.start w).tokens s e := by
    unfold Progress.tokens Progress.start
    rw [hload]
  exact hother.symm.trans ((congrArg Prod.fst htokens).trans hw)

section Run

variable {arguments : List String} {path : String} {w : Workspace} {setup : Setup}

theorem run_check (hread : Cli.read arguments = .ok (.run (.check path)))
    (hfind : Setup.find w path = .ok setup) :
    Cli.run arguments w
      = (.ofReport BuildFailure.message (setup.build none false w),
          (setup.build none false w).workspace) := by
  have hbuild : Project.build path none false w = setup.build none false w := by
    unfold Project.build
    rw [hfind]
  unfold Cli.run
  rw [hread]
  show (Cli.Outcome.ofReport BuildFailure.message (Project.build path none false w),
    (Project.build path none false w).workspace) = _
  rw [hbuild]

theorem output_ofReport (message : BuildFailure → String) (r : Report BuildFailure) :
    (Cli.Outcome.ofReport message r).output = r.lines := by
  unfold Cli.Outcome.ofReport
  split <;> rfl

theorem exitCode_eq_zero_iff (message : BuildFailure → String) (r : Report BuildFailure) :
    (Cli.Outcome.ofReport message r).exitCode = 0 ↔ r.failure = none := by
  rw [Cli.exitCode_ofReport]
  cases r.failure <;> simp

theorem exitCode_eq_one_iff (message : BuildFailure → String) (r : Report BuildFailure) :
    (Cli.Outcome.ofReport message r).exitCode = 1 ↔ r.failure ≠ none := by
  rw [Cli.exitCode_ofReport]
  cases r.failure <;> simp

/-- **Entries are isolated.**  A check of a project that lists entries changes no file.  It
    prints, entry by entry in the order of the configuration, what it prints when the
    configuration lists that entry alone: one line with the number of tokens, or none where the
    entry fails alone.  It ends with a failure exactly if an entry fails alone.  So the order of
    the entries only orders the lines.

    The configuration stands among the files.  Where it is rewritten to list an entry alone, and
    the entry does not read what else is changed by that, the program comes to the same for the
    entry. -/
theorem check_isolates_entries (hread : Cli.read arguments = .ok (.run (.check path)))
    (hfind : Setup.find w path = .ok setup) (hentries : setup.config.entries ≠ []) :
    (Cli.run arguments w).2 = w ∧
    (Cli.run arguments w).1.output
      = setup.config.entries.flatMap (fun e => (setup.alone w e).lines) ∧
    (∀ e ∈ setup.config.entries,
      ((setup.alone w e).failure = none ∧
        ∃ n : Nat, (setup.alone w e).lines = [e.file ++ ": " ++ toString n ++ " tokens"]) ∨
      ((setup.alone w e).failure = some (.failed 1 1) ∧ (setup.alone w e).lines = [])) ∧
    ((Cli.run arguments w).1.exitCode = 0 ↔
      ∀ e ∈ setup.config.entries, (setup.alone w e).failure = none) ∧
    ((Cli.run arguments w).1.exitCode = 1 ↔
      ∃ e ∈ setup.config.entries, (setup.alone w e).failure ≠ none) ∧
    (∀ entries, entries.Perm setup.config.entries →
      ((setup.listing entries).build none false w).lines.Perm (Cli.run arguments w).1.output ∧
      (((setup.listing entries).build none false w).failure = none ↔
        (Cli.run arguments w).1.exitCode = 0)) ∧
    ∀ e ∈ setup.config.entries, ∀ other : Workspace, other.here = w.here →
      Setup.find other path = .ok (setup.listing [e]) →
      Loader.AgreeOn (setup.loader w) (setup.loader other)
        ((setup.loader w).load e.file .empty).2 →
      (Cli.run arguments other).1.output = (setup.alone w e).lines ∧
        ((Cli.run arguments other).1.exitCode = 0 ↔ (setup.alone w e).failure = none) := by
  have hrun := run_check hread hfind
  have hcheck := check_eq setup w hentries
  have houtput : (Cli.run arguments w).1.output
      = setup.config.entries.flatMap (setup.report w) := by
    rw [hrun, output_ofReport, hcheck]
  have hgood : (Cli.run arguments w).1.exitCode = 0 ↔
      ∀ e ∈ setup.config.entries, setup.fails w e = false := by
    rw [hrun, exitCode_eq_zero_iff, failure_eq_none_iff setup w hentries]
  refine ⟨?files, ?lines, ?line, ?good, ?bad, ?order, ?rewritten⟩
  case files => rw [hrun, hcheck]
  case lines =>
    have halone : (fun e => (setup.alone w e).lines) = setup.report w := by
      funext e
      rw [alone_eq]
    rw [houtput, halone]
  case line =>
    intro e _
    rw [alone_eq]
    unfold Setup.report Setup.fails
    cases setup.result? w e with
    | none => exact Or.inr ⟨rfl, rfl⟩
    | some table => exact Or.inl ⟨rfl, table.size, rfl⟩
  case good =>
    rw [hgood]
    exact forall₂_congr fun e _ => (failure_alone_iff setup w e).symm
  case bad =>
    rw [hrun, exitCode_eq_one_iff, ne_eq, failure_eq_none_iff setup w hentries]
    simp only [ne_eq, failure_alone_iff, Classical.not_forall, exists_prop]
  case order =>
    intro entries hperm
    have hother : (setup.listing entries).config.entries ≠ [] := by
      intro hnil
      have hempty : entries = [] := hnil
      rw [hempty] at hperm
      exact hentries (List.nil_perm.1 hperm)
    constructor
    · rw [check_eq _ w hother, houtput]
      exact hperm.flatMap_right (setup.report w)
    · rw [failure_eq_none_iff _ w hother, hgood]
      exact ⟨fun h e he => h e (hperm.mem_iff.2 he), fun h e he => h e (hperm.mem_iff.1 he)⟩
  case rewritten =>
    intro e _ other hhere hlists hagree
    have hresult : setup.result? other e = setup.result? w e := result?_of_agree hhere hagree
    have hlines : (setup.alone other e).lines = (setup.alone w e).lines := by
      rw [alone_eq, alone_eq]
      unfold Setup.report
      rw [hresult]
    have hfails : setup.fails other e = setup.fails w e := by
      unfold Setup.fails
      rw [hresult]
    rw [run_check hread hlists, output_ofReport, exitCode_eq_zero_iff]
    refine ⟨hlines, ?_⟩
    show (setup.alone other e).failure = none ↔ _
    rw [failure_alone_iff, failure_alone_iff, hfails]

end Run

/-! ### Hues beside a document that is lost -/

/-- The documents that the project lists; the first one is not there. -/
def huesFiles : List String := ["lost.toml", "hues.toml"]

/-- The text of a configuration that lists documents. -/
def huesConfig (files : List String) : String :=
  "[project]\nname = \"hues\"\n"
    ++ String.join (files.map fun file => "[[entry]]\nfile = \"" ++ file ++ "\"\n")

/-- A project that lists documents and has one. -/
def huesWorkspace (files : List String) : Workspace where
  tree :=
    ⟨[(["work"], .folder), (["work", "tinct.toml"], .file (huesConfig files)),
      (["work", "tokens"], .folder), (["work", "tokens", "hues.toml"],
        .file "red = \"#f00\"\nblue = \"#00f\"\n[\"$build\"]\nexports = [\"**\"]\n")]⟩
  here := ["work"]

/-- The configuration of the project. -/
def huesSetup (files : List String) : Setup where
  config := { name := "hues", entries := files.map fun file => { file } }
  base := ⟨false, []⟩

/-- The loader of the project, whatever it lists. -/
def huesLoader (files : List String) : Loader :=
  (huesSetup huesFiles).loader (huesWorkspace files)

/-- What is left behind when one of the documents is listed alone. -/
def huesAlone (file : String) : Report BuildFailure :=
  (huesSetup huesFiles).alone (huesWorkspace huesFiles) { file }

/-- Where the document lies. -/
def huesPath : DocPath := ⟨true, [.name "work", .name "tokens", .name "hues.toml"]⟩

/-- The document. -/
def huesDocument : Document where
  data := .obj [("red", .str "#f00"), ("blue", .str "#00f")]
  directives := some { imports := [], patches := [], exports := some ⟨["**"], []⟩ }

theorem fetch_hues : (huesLoader huesFiles).fetch [] huesPath = .ok huesDocument :=
  eq_ok_of_toOption (by decide +kernel)

/-- The document is loaded by itself: it imports nothing. -/
theorem reads_hues :
    ((huesLoader huesFiles).load "hues.toml" .empty).2.reads = [huesPath] := by
  unfold Loader.load
  rw [Loader.loadIn_of_linked rfl rfl fetch_hues Loader.loadImports_nil]
  rfl

theorem report_hues :
    (huesSetup huesFiles).report (huesWorkspace huesFiles) { file := "hues.toml" }
      = ["hues.toml: 2 tokens"] := by
  have hunfold : (huesLoader huesFiles).unfold "hues.toml" = .ok _ :=
    (Loader.unfoldIn_of_fetched rfl fetch_hues).trans
      (congrArg (Except.map _) Loader.unfoldImports_nil)
  unfold Setup.report Setup.result?
  show ((((huesLoader _).unfold "hues.toml").toOption.bind _).map _).toList = _
  rw [hunfold]
  decide +kernel

theorem fails_hues :
    (huesSetup huesFiles).fails (huesWorkspace huesFiles) { file := "lost.toml" } = true := by
  have hunfold : (huesLoader huesFiles).unfold "lost.toml" = .error _ :=
    Loader.unfoldIn_of_unfetched rfl rfl
  unfold Setup.fails Setup.result?
  show (((huesLoader _).unfold "lost.toml").toOption.bind _).isNone = true
  rw [hunfold]
  rfl

/-- The project lists a document that is not there before the one that is: the check prints the
    line of the second one and fails, and with the second one alone it prints the same line. -/
theorem check_isolates_entries_hues :
    Cli.read ["check"] = .ok (.run (.check ".")) ∧
    Setup.find (huesWorkspace huesFiles) "." = .ok (huesSetup huesFiles) ∧
    (huesSetup huesFiles).config.entries ≠ [] ∧
    (Cli.run ["check"] (huesWorkspace huesFiles)).1.output = ["hues.toml: 2 tokens"] ∧
    (Cli.run ["check"] (huesWorkspace huesFiles)).1.exitCode = 1 ∧
    (Cli.run ["check"] (huesWorkspace ["hues.toml"])).1.output = ["hues.toml: 2 tokens"] ∧
    (Cli.run ["check"] (huesWorkspace ["hues.toml"])).1.exitCode = 0 := by
  have hread : Cli.read ["check"] = .ok (.run (.check ".")) := rfl
  have hfind : Setup.find (huesWorkspace huesFiles) "." = .ok (huesSetup huesFiles) :=
    eq_ok_of_toOption (by decide +kernel)
  have hentries : (huesSetup huesFiles).config.entries ≠ [] := List.cons_ne_nil _ _
  obtain ⟨-, houtput, -, -, hfailed, -, hrewritten⟩ :=
    check_isolates_entries hread hfind hentries
  have hlost : (huesAlone "lost.toml").lines = [] := by
    rw [huesAlone, alone_eq]
    exact report_of_fails fails_hues
  have hhues : (huesAlone "hues.toml").lines = ["hues.toml: 2 tokens"] := by
    rw [huesAlone, alone_eq]
    exact report_hues
  have hfound : Setup.find (huesWorkspace ["hues.toml"]) "."
      = .ok ((huesSetup huesFiles).listing [{ file := "hues.toml" }]) :=
    eq_ok_of_toOption (by decide +kernel)
  -- the configuration is not read as a document
  have hagree : Loader.AgreeOn (huesLoader huesFiles) (huesLoader ["hues.toml"])
      ((huesLoader huesFiles).load "hues.toml" .empty).2 := by
    intro path hpath
    rw [reads_hues, List.mem_singleton] at hpath
    rw [hpath]
    decide +kernel
  obtain ⟨houtputAlone, hcodeAlone⟩ :=
    hrewritten { file := "hues.toml" } (by decide +kernel) (huesWorkspace ["hues.toml"]) rfl
      hfound hagree
  refine ⟨hread, hfind, hentries, ?_, ?_, ?_, ?_⟩
  · rw [houtput]
    show (huesAlone "lost.toml").lines ++ ((huesAlone "hues.toml").lines ++ []) = _
    rw [hlost, hhues]
    rfl
  · refine hfailed.2 ⟨{ file := "lost.toml" }, by decide +kernel, fun hnone => ?_⟩
    rw [failure_alone_iff, fails_hues] at hnone
    exact nomatch hnone
  · exact houtputAlone.trans hhues
  · rw [hcodeAlone, failure_alone_iff]
    refine Bool.eq_false_iff.2 fun hfails => ?_
    have hnone := report_of_fails hfails
    rw [report_hues] at hnone
    exact nomatch hnone

end Project

end DesignTokens
