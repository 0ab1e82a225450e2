/-
  DesignTokens.Proofs.Build.Failure — where a failed build points to.

  A failure of an import comes back in a wrapper that names the document which declares the
  import, and the key.  The wrappers of a failure are its trail.  Read from the outside, it is a
  chain of imports that leads from the document that was asked for to the one that cannot be
  built itself: its exports are refused, or one of its patches fails.

  What has been built before plays no part in this.  A build answers with the outcome of its
  document (`build_sound`), so the trail can be followed through the outcomes, wrapper by wrapper,
  and the document at its end fails for a new builder too.

  Main facts:
    * `failsItself_of_finish` — the patch that a failure counts comes after patches that succeed.
    * `leads_of_outcome` — the trail of a failure leads to the document that fails itself.
    * `Leads.unique` — it leads nowhere else where the keys of the imports are distinct.
    * `failure_located` — both of these for builds, whatever has been built before.
-/
import DesignTokens.Proofs.Build.Memo
import DesignTokens.Proofs.Source.Documents

namespace DesignTokens

/-! ## §1. Failures taken apart -/

namespace BuildError

/-- The wrappers of a failure, the outermost first: for each of them the document that declares
    the import, and the key of the import. -/
def trail : BuildError → List (DocPath × String)
  | .imported path key fault => (path, key) :: fault.trail
  | .patch .. | .exports .. => []

/-- The failure inside of all wrappers. -/
def innermost : BuildError → BuildError
  | .imported _ _ fault => fault.innermost
  | .patch path index name fault => .patch path index name fault
  | .exports path fault => .exports path fault

/-- The wrappers do not change the document that a failure points at. -/
theorem path_innermost (e : BuildError) : e.innermost.path = e.path := by
  induction e with
  | imported path key fault ih => exact ih
  | patch | exports => rfl

end BuildError

namespace Source

/-- A chain of imports that are built, as the documents that declare them and their keys, leads
    from one document to another. -/
inductive Leads : Source → List (DocPath × String) → Source → Prop
  | here (s : Source) : Leads s [] s
  | into {s child target : Source} {key : String} {rest : List (DocPath × String)}
      (himport : (key, child, true) ∈ s.imports) (hrest : Leads child rest target) :
      Leads s ((s.path, key) :: rest) target

/-- The ways in which a document fails itself, while its imports can be built. -/
inductive FailsItself (strict : Bool) (s : Source) : BuildError → Prop
  /-- The patterns of its exports are refused. -/
  | exports {patterns : ExportPatterns} {fault : ExportError}
      (hpatterns : s.exportPatterns? = some patterns)
      (hfault : ExportFilter.compile patterns = .error fault) :
      FailsItself strict s (.exports s.path fault)
  /-- A patch fails on what the patches in front of it have made of the document, into which a new
      builder has spliced the imports. -/
  | patch {front back : List Patch} {p : Patch} {spliced doc : Tree} {fault : PatchError}
      (hsplice : (spliceImports strict s.path s.imports s.data
        (BuildState.empty.noteStart s.path)).1 = .ok spliced)
      (hpatches : s.patches = front ++ p :: back)
      (hfront : Build.applyPatches strict s.path 1 front spliced = .ok doc)
      (hfault : p.apply strict doc = .error fault) :
      FailsItself strict s (.patch s.path (front.length + 1) p.name fault)

end Source

/-! ## §2. One document -/

namespace Build

variable {strict : Bool} {path : DocPath}

/-- **A list of patches fails** when a patch does after all patches in front of it have succeeded,
    and the failure counts the patches up to this one. -/
theorem exists_of_applyPatches_error {patches : List Patch} {index : Nat} {doc : Tree}
    {e : BuildError} (h : applyPatches strict path index patches doc = .error e) :
    ∃ front p back next fault, patches = front ++ p :: back ∧
      applyPatches strict path index front doc = .ok next ∧ p.apply strict next = .error fault ∧
      e = .patch path (index + front.length) p.name fault := by
  induction patches generalizing index doc with
  | nil => cases h
  | cons p rest ih =>
    rw [applyPatches] at h
    rcases bind_eq_error_iff.1 h with hhead | ⟨next, hhead, htail⟩
    · -- the first patch fails, with nothing in front of it
      cases hpatch : p.apply strict doc with
      | ok next =>
        rw [hpatch] at hhead
        cases hhead
      | error fault =>
        rw [hpatch] at hhead
        exact ⟨[], p, rest, doc, fault, rfl, rfl, hpatch, (Except.error.inj hhead).symm⟩
    · obtain ⟨front, q, back, last, fault, hrest, hfront, hfault, he⟩ := ih htail
      refine ⟨p :: front, q, back, last, fault, ?_, ?_, hfault, ?_⟩
      · rw [hrest, List.cons_append]
      · rw [applyPatches]
        exact bind_eq_ok_iff.2 ⟨next, hhead, hfront⟩
      · rw [he, List.length_cons, Nat.add_assoc, Nat.add_comm 1]

/-- What is left to do once the imports are spliced in fails by a patch. -/
theorem failsItself_of_finish {s : Source} {filter : ExportFilter} {spliced : Tree}
    {e : BuildError}
    (hsplice : (Source.spliceImports strict s.path s.imports s.data
      (BuildState.empty.noteStart s.path)).1 = .ok spliced)
    (h : finish strict s filter spliced = .error e) : s.FailsItself strict e := by
  rcases bind_eq_error_iff.1 h with hpatches | ⟨doc, -, hfilter⟩
  · obtain ⟨front, p, back, doc, fault, hsplit, hfront, hfault, he⟩ :=
      exists_of_applyPatches_error hpatches
    rw [he, Nat.add_comm 1]
    exact .patch hsplice hsplit hfront hfault
  · -- filtering does not fail
    cases hfilter

end Build

namespace Source

variable {strict : Bool} {s : Source} {e : BuildError}

/-- Exports that are refused are those of the document. -/
theorem failsItself_of_exportFilter? (h : s.exportFilter? = .error e) :
    s.FailsItself strict e := by
  unfold exportFilter? at h
  split at h
  · cases h
  · next patterns hpatterns =>
    split at h
    · next fault hfault =>
      cases h
      exact .exports hpatterns hfault
    · cases h

/-- A document that fails itself is the one that its failure points at. -/
theorem FailsItself.path_eq (h : s.FailsItself strict e) : e.path = s.path := by
  cases h with
  | exports | patch => rfl

/-! ## §3. Following the trail -/

/-- Imports fail to be spliced in when one of them fails that is to be built. -/
theorem exists_of_splicedImports_error {path : DocPath} {imports : List (String × Source × Bool)}
    {doc : Tree} (h : splicedImports strict path imports doc = .error e) :
    ∃ key child fault, (key, child, true) ∈ imports ∧ child.outcome strict = .error fault ∧
      e = .imported path key fault := by
  induction imports generalizing doc with
  | nil =>
    rw [splicedImports] at h
    cases h
  | cons imported rest ih =>
    obtain ⟨key, child, build⟩ := imported
    have hlater : ∀ {doc : Tree}, splicedImports strict path rest doc = .error e →
        ∃ key' child' fault, (key', child', true) ∈ (key, child, build) :: rest ∧
          child'.outcome strict = .error fault ∧ e = .imported path key' fault := by
      intro doc hrest
      obtain ⟨key', child', fault, hmem, hfault, he⟩ := ih hrest
      exact ⟨key', child', fault, List.mem_cons_of_mem _ hmem, hfault, he⟩
    cases build with
    | false =>
      rw [splicedImports] at h
      exact hlater h
    | true =>
      rw [splicedImports] at h
      split at h
      · next fault hfault =>
        exact ⟨key, child, fault, List.mem_cons_self, hfault, (Except.error.inj h).symm⟩
      · exact hlater h
      · exact hlater h

/-- **A document whose outcome is a failure** fails itself, or one of its imports fails and the
    failure is wrapped once. -/
theorem failsItself_or_of_outcome {family : List Source} (hfamily : Coherent family)
    (hs : s ∈ family) (h : s.outcome strict = .error e) :
    s.FailsItself strict e ∨ ∃ key child fault, (key, child, true) ∈ s.imports ∧
      child.outcome strict = .error fault ∧ e = .imported s.path key fault := by
  rw [outcome_eq] at h
  split at h
  · next fault hfilter =>
    cases h
    exact Or.inl (failsItself_of_exportFilter? hfilter)
  · cases h
  · next filter hfilter =>
    split at h
    · next fault hsplice =>
      cases h
      exact Or.inr (exists_of_splicedImports_error hsplice)
    · next spliced hsplice =>
      -- a new builder splices in the outcomes of the imports
      have hnew := ((build_sound hfamily).2 s.path s.imports s.data
        (BuildState.empty.noteStart s.path) (hfamily.imports_mem s hs)
        (MemoSound.empty strict family)).1
      rw [hsplice] at hnew
      exact Or.inl (Build.failsItself_of_finish hnew (map_eq_error_iff.1 h))

/-- **The trail of a failure leads to the document that fails itself**, and its outcome is the
    innermost failure. -/
theorem leads_of_outcome {family : List Source} (hfamily : Coherent family) (hs : s ∈ family)
    (h : s.outcome strict = .error e) :
    ∃ d ∈ family, s.Leads e.trail d ∧ d.FailsItself strict e.innermost ∧
      d.outcome strict = .error e.innermost := by
  -- the wrappers are taken off one by one, and each of them is one import further down
  induction e generalizing s with
  | imported path key fault ih =>
    rcases failsItself_or_of_outcome hfamily hs h with
      hitself | ⟨key', child, fault', hmem, hchild, he⟩
    · cases hitself
    · cases he
      have hfamilyChild : child ∈ family := hfamily.imports_mem s hs _ hmem
      obtain ⟨d, hd, hleads, hfails, houtcome⟩ := ih hfamilyChild hchild
      exact ⟨d, hd, .into hmem hleads, hfails, houtcome⟩
  | patch path index name fault =>
    rcases failsItself_or_of_outcome hfamily hs h with hitself | ⟨_, _, _, -, -, he⟩
    · exact ⟨s, hs, .here s, hitself, h⟩
    · cases he
  | exports path fault =>
    rcases failsItself_or_of_outcome hfamily hs h with hitself | ⟨_, _, _, -, -, he⟩
    · exact ⟨s, hs, .here s, hitself, h⟩
    · cases he

/-- Where no two imports of a document have one key, a chain leads to one document only. -/
theorem Leads.unique {family : List Source} (hfamily : Coherent family)
    (hkeys : ∀ s ∈ family, (Entries.keys s.imports).Nodup) (hs : s ∈ family)
    {trail : List (DocPath × String)} {d other : Source} (h : s.Leads trail d)
    (hother : s.Leads trail other) : other = d := by
  induction h with
  | here s =>
    cases hother
    rfl
  | @into s child target key rest himport hrest ih =>
    cases hother with
    | @into _ child' _ _ _ himport' hrest' =>
      have hfound := Entries.get?_of_mem (hkeys s hs) himport
      have hfound' := Entries.get?_of_mem (hkeys s hs) himport'
      rw [hfound] at hfound'
      cases hfound'
      exact ih (hfamily.imports_mem s hs _ himport) hrest'

end Source

/-! ## §4. Builds -/

namespace Loader

/-- Where objects are read as maps, no two imports of a loaded document have one key. -/
theorem nodup_keys_imports {l : Loader} (hmaps : l.io.ReadsMaps) (files : List String) :
    ∀ s ∈ (l.loadAll files .empty).sources, (Entries.keys s.imports).Nodup := by
  intro s hs
  have hdeclared : (Entries.keys s.declaredLinks).Nodup :=
    (sound_of_mem_sources hmaps files s hs).declared
  have hinv : CacheInvariant (l.loadAll files .empty).cache :=
    l.cacheInvariant_loadAll files cacheInvariant_nil
  obtain ⟨⟨path, t⟩, hmem, rfl⟩ := List.mem_map.1 hs
  obtain ⟨i, hi⟩ := List.mem_iff_getElem?.1 hmem
  rw [← (hinv.entry i path t hi).links_eq, Source.links, Entries.keys, List.map_map] at hdeclared
  exact hdeclared

end Loader

/-- **A failed build points at the document that fails.**  Whatever has been built before, the
    trail of the failure is a chain of imports that are built, and it leads from the document that
    was asked for to the one that the failure points at.  That document fails itself, and a new
    builder fails on it with the innermost failure.  Where objects are read as maps, the chain
    leads to no other document. -/
theorem failure_located (l : Loader) (files : List String) (strict : Bool)
    {requests : List Source} (hrequests : ∀ r ∈ requests, r ∈ (l.loadAll files .empty).sources)
    {s : Source} (hs : s ∈ (l.loadAll files .empty).sources) {e : BuildError}
    (hfail : (s.build strict (BuildState.buildAll strict requests .empty).2).1 = .error e) :
    ∃ d ∈ (l.loadAll files .empty).sources,
      s.Leads e.trail d ∧ e.path = d.path ∧
      (d.build strict .empty).1 = .error e.innermost ∧ d.FailsItself strict e.innermost ∧
      (l.io.ReadsMaps → ∀ other, s.Leads e.trail other → other = d) := by
  have hfamily : Coherent (l.loadAll files .empty).sources :=
    (l.cacheInvariant_loadAll files cacheInvariant_nil).coherent
  obtain ⟨-, hmemo⟩ := BuildState.buildAll_sound hfamily hrequests (MemoSound.empty strict _)
  have houtcome : s.outcome strict = .error e := by
    rw [← ((Source.build_sound hfamily).1 s _ hs hmemo).1, hfail]
  obtain ⟨d, hd, hleads, hfails, hinner⟩ := Source.leads_of_outcome hfamily hs houtcome
  refine ⟨d, hd, hleads, ?_, ?_, hfails, ?_⟩
  · rw [← e.path_innermost, hfails.path_eq]
  · rw [Source.build_empty hfamily strict hd, hinner]
  · intro hmaps other hother
    exact hleads.unique hfamily (Loader.nodup_keys_imports hmaps files) hs hother

/-! ### A poster over a theme that fails in its second patch -/

/-- The documents by name.  The theme takes the red of the palette, and then removes something that
    is not there. -/
def posterDocuments : Entries Tree :=
  [("palette", .obj [("red", .str "#f00"), ("$build", .obj [("exports", .arr [.str "red"])])]),
    ("theme", .obj [("$build", .obj [("imports", .obj [("palette", .str "palette")]),
      ("patches", .arr [
        .obj [("operations", .arr [.obj [("op", .str "copy"), ("from", .str "/palette/red"),
          ("path", .str "/danger")]])],
        .obj [("name", .str "tidy"), ("strict", .bool true),
          ("operations", .arr [.obj [("op", .str "remove"), ("path", .str "/draft")]])]]),
      ("exports", .arr [.str "**"])])]),
    ("poster", .obj [("$build", .obj [
      ("imports", .obj [("palette", .str "palette"), ("look", .str "theme")]),
      ("exports", .arr [.str "**"])])])]

/-- The loader of the poster. -/
def posterLoader : Loader where
  io :=
    { resolve := fun file _ => .ok (BuildState.samplePath file)
      files := posterDocuments.map fun (name, _) => (BuildState.samplePath name, .empty)
      parse := fun _ path =>
        .ok ((Entries.get? path
          (posterDocuments.map fun (name, doc) => (BuildState.samplePath name, doc))).getD .null) }
  root := ⟨true, [.name "tokens"]⟩

theorem readsMaps_poster : posterLoader.io.ReadsMaps := by
  have hdocuments : ∀ entry ∈ posterDocuments, entry.2.Distinct := by decide +kernel
  intro bytes path
  refine Makes.ok ?_
  cases hfound : Entries.get? path
      (posterDocuments.map fun (name, doc) => (BuildState.samplePath name, doc)) with
  | none => decide +kernel
  | some doc =>
    obtain ⟨entry, hentry, heq⟩ := List.mem_map.1 (Entries.mem_of_get? hfound)
    cases heq
    exact hdocuments entry hentry

/-- The loaded palette. -/
def posterPalette : Source :=
  posterLoader.sourceOf "palette" (BuildState.samplePath "palette")
    { data := .obj [("red", .str "#f00")]
      directives := some { imports := [], patches := [], exports := some ⟨["red"], []⟩ } }
    []

/-- The loaded theme. -/
def posterTheme : Source :=
  posterLoader.sourceOf "theme" (BuildState.samplePath "theme")
    { data := .obj []
      directives := some
        { imports := [("palette", .file "palette")]
          patches :=
            [Patch.ofOperations
                [.transfer .copy (.pointer "/palette/red") (.pointer "/danger") none],
              { name := some "tidy", strict := some true, matrix := none,
                operations := [.remove (.pointer "/draft") none] }]
          exports := some ⟨["**"], []⟩ } }
    [("palette", posterPalette, true)]

/-- The loaded poster. -/
def poster : Source :=
  posterLoader.sourceOf "poster" (BuildState.samplePath "poster")
    { data := .obj []
      directives := some
        { imports := [("palette", .file "palette"), ("look", .file "theme")]
          patches := []
          exports := some ⟨["**"], []⟩ } }
    [("palette", posterPalette, true), ("look", posterTheme, true)]

theorem sources_poster : (posterLoader.loadAll ["poster"] .empty).sources
    = [posterPalette, posterTheme, poster] := by
  have hpalette : posterLoader.loadIn [BuildState.samplePath "poster"] "palette"
      (LoadState.empty.noteRead (BuildState.samplePath "poster")) = (.ok posterPalette, _) :=
    Loader.loadIn_of_linked rfl rfl rfl Loader.loadImports_nil
  have htheme : ∀ state : LoadState, state.find? (BuildState.samplePath "theme") = none →
      state.find? (BuildState.samplePath "palette") = some posterPalette →
      posterLoader.loadIn [BuildState.samplePath "poster"] "theme" state
        = (.ok posterTheme, (state.noteRead (BuildState.samplePath "theme")).keep
            (BuildState.samplePath "theme") posterTheme) :=
    fun state hnew hcached => Loader.loadIn_of_linked rfl hnew rfl
      (Loader.loadImports_of_loaded (Loader.loadIn_of_cached rfl hcached) Loader.loadImports_nil)
  have hposter : posterLoader.loadIn [] "poster" .empty = (.ok poster, _) :=
    Loader.loadIn_of_linked rfl rfl rfl
      (Loader.loadImports_of_loaded hpalette
        (Loader.loadImports_of_loaded (htheme _ rfl rfl) Loader.loadImports_nil))
  show (posterLoader.loadIn [] "poster" .empty).2.sources = _
  rw [hposter]
  rfl

/-- The failure of the poster: the second patch of its look finds nothing to remove. -/
def posterFault : BuildError :=
  .imported (BuildState.samplePath "poster") "look"
    (.patch (BuildState.samplePath "theme") 2 (some "tidy")
      (.operation 1 none (.edit (.pathMissing ⟨["draft"]⟩))))

/-- The palette has been built before and so it is taken from the memo; the failure points at the
    theme, which fails by its second patch for a new builder too. -/
theorem failure_located_poster :
    posterLoader.io.ReadsMaps ∧
      (∀ s ∈ [posterPalette, poster], s ∈ (posterLoader.loadAll ["poster"] .empty).sources) ∧
      (poster.build false (BuildState.buildAll false [posterPalette] .empty).2).1
        = .error posterFault ∧
      posterFault.path = posterTheme.path ∧
      (posterTheme.build false .empty).1 = .error posterFault.innermost ∧
      posterTheme.FailsItself false posterFault.innermost := by
  have hsources : ∀ s ∈ [posterPalette, poster],
      s ∈ (posterLoader.loadAll ["poster"] .empty).sources := by
    rw [sources_poster]
    simp
  obtain ⟨hpalette, hposter⟩ := List.forall_mem_cons.1 hsources
  have hfail : (poster.build false (BuildState.buildAll false [posterPalette] .empty).2).1
      = .error posterFault := eq_error_of_fault? (by decide +kernel)
  obtain ⟨d, -, -, hpath, hbuild, hitself, hunique⟩ :=
    failure_located posterLoader ["poster"] false (List.forall_mem_singleton.2 hpalette)
      (hposter poster List.mem_cons_self) hfail
  have hleads : poster.Leads posterFault.trail posterTheme :=
    .into (List.mem_cons_of_mem _ List.mem_cons_self) (.here posterTheme)
  obtain rfl : posterTheme = d := hunique readsMaps_poster posterTheme hleads
  exact ⟨readsMaps_poster, hsources, hfail, hpath, hbuild, hitself⟩

end DesignTokens
