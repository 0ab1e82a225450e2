/-
  DesignTokens.Proofs.Build.Shape — the shape of what is built.

  A build starts with the data of a document, splices in what its imports come to, and runs the
  operations of its patches.  Each of these steps turns an object into an object and keeps keys
  distinct: a key that is spliced in is there, and a key that is dropped is gone, because it
  stood there once.  What is left is pruned, so nothing inside of it is empty.

  `Passes` has every document that a build can pass through, each made from one before it by one
  splice or by one operation for one combination.  It is wider than a single run, which makes
  these steps in one order and ends where one of them fails.

  Main facts:
    * `isDocument_of_passes` — a step lemma for each kind of step, along every run.
    * `makes_outcome` — a built document is the exported part of one that was passed.
    * `build_shape` — the shape of what is built.
-/
import DesignTokens.Proofs.Build.Memo
import DesignTokens.Proofs.Edit.Place
import DesignTokens.Proofs.Export.Filter
import DesignTokens.Proofs.Source.Documents

namespace DesignTokens

open DesignTokens.Tree (IsDocument distinct_obj_iff distinct_put distinct_erase)

/-! ## §1. Steps -/

namespace Build

variable {doc value : Tree}

/-- **Splicing turns a document into a document**, and what is spliced in is there. -/
theorem isDocument_splice (hdoc : doc.IsDocument) (key : String) (hvalue : value.Distinct) :
    (splice key value doc).IsDocument := by
  obtain ⟨hobject, hdistinct⟩ := hdoc
  cases doc with
  | obj fields => exact ⟨rfl, distinct_put hdistinct hvalue⟩
  | null | bool | num | str | arr => cases hobject

theorem child?_splice (hdoc : doc.isObject = true) (key : String) (value : Tree) :
    (splice key value doc).child? key = some value := by
  cases doc with
  | obj fields => exact Entries.get?_put_self key value fields
  | null | bool | num | str | arr => cases hdoc

/-- The entries that are left when keys are removed one after the other. -/
theorem distinct_foldl_erase (keys : List String) {fields : List (String × Tree)}
    (h : (Tree.obj fields).Distinct) :
    (Tree.obj (keys.foldl (fun kept key => Entries.erase key kept) fields)).Distinct ∧
      (Entries.keys (keys.foldl (fun kept key => Entries.erase key kept) fields)).Sublist
        (Entries.keys fields) ∧
      ∀ key ∈ keys, key ∉ Entries.keys (keys.foldl (fun kept key => Entries.erase key kept) fields) := by
  induction keys generalizing fields with
  | nil => exact ⟨h, List.Sublist.refl _, fun key hkey => nomatch hkey⟩
  | cons first rest ih =>
    obtain ⟨hdistinct, hsub, hgone⟩ := ih (distinct_erase h first)
    refine ⟨hdistinct, hsub.trans (Entries.keys_erase_sublist first fields), ?_⟩
    intro key hkey hleft
    rcases List.mem_cons.1 hkey with rfl | hrest
    · -- the keys were distinct, so no entry with this key was left for later
      exact Entries.not_mem_keys_erase (distinct_obj_iff.1 h).1 key (hsub.subset hleft)
    · exact hgone key hrest hleft

/-- **Dropping keys turns a document into a document**, in which none of them is left. -/
theorem exists_dropKeys (hdoc : doc.IsDocument) (keys : List String) :
    ∃ fields, dropKeys keys doc = .obj fields ∧ (Tree.obj fields).Distinct ∧
      ∀ key ∈ keys, key ∉ Entries.keys fields := by
  obtain ⟨hobject, hdistinct⟩ := hdoc
  cases doc with
  | null | bool | num | str | arr => cases hobject
  | obj fields =>
    obtain ⟨hleft, -, hgone⟩ := distinct_foldl_erase keys hdistinct
    exact ⟨_, rfl, hleft, hgone⟩

end Build

/-! ## §2. The documents that a build passes through -/

namespace Source

/-- The documents that a build can pass through: the data of the source, and what becomes of
    such a document when an import is spliced in, or when an operation of a patch is run for a
    combination. -/
inductive Passes (strict : Bool) (s : Source) : Tree → Prop where
  | data : Passes strict s s.data
  | built {doc value : Tree} {key : String} {source : Source} (hdoc : Passes strict s doc)
    (hmem : (key, source, true) ∈ s.imports) (hvalue : source.outcome strict = .ok (some value)) :
    Passes strict s (Build.splice key value doc)
  | raw {doc : Tree} {key : String} {source : Source} (hdoc : Passes strict s doc)
    (hmem : (key, source, false) ∈ s.imports) : Passes strict s (Build.splice key source.data doc)
  | operation {doc next : Tree} {p : Patch} {op : Operation} {combination : Option Combination}
    (hdoc : Passes strict s doc) (hp : p ∈ s.patches) (hop : op ∈ p.operations)
    (hrun : op.run (p.strict.getD strict) combination doc = .ok next) : Passes strict s next

variable {strict : Bool} {s : Source} {doc : Tree}

/-- **Whatever a build passes through is a document**, when this holds of its data and of what
    is spliced in. -/
theorem isDocument_of_passes (hs : s.Sound)
    (himports : ∀ imported ∈ s.imports, imported.2.1.Sound ∧
      Makes (imported.2.1.outcome strict) fun built => ∀ tree ∈ built, tree.Distinct)
    (h : s.Passes strict doc) : doc.IsDocument := by
  induction h with
  | data => exact hs.data
  | built _ hmem hvalue ih =>
    exact Build.isDocument_splice ih _ ((himports _ hmem).2 _ hvalue _ rfl)
  | raw _ hmem ih => exact Build.isDocument_splice ih _ (himports _ hmem).1.data.distinct
  | @operation doc next p op combination _ hp hop hrun ih =>
    exact Operation.makes_run (hs.patches p hp op hop) ih combination next hrun

/-! ## §3. Runs -/

/-- A build that splices its imports in passes through what it makes. -/
theorem passes_splicedImports (path : DocPath) {imports : List (String × Source × Bool)}
    (hmem : ∀ imported ∈ imports, imported ∈ s.imports) (hdoc : s.Passes strict doc) :
    Makes (splicedImports strict path imports doc) (s.Passes strict) := by
  induction imports generalizing doc with
  | nil =>
    rw [splicedImports]
    exact Makes.ok hdoc
  | cons imported rest ih =>
    obtain ⟨hhead, hrest⟩ := List.forall_mem_cons.1 hmem
    obtain ⟨key, source, build⟩ := imported
    cases build with
    | false =>
      rw [splicedImports]
      exact ih hrest (.raw hdoc hhead)
    | true =>
      rw [splicedImports]
      split
      · exact Makes.error _ _
      · exact ih hrest hdoc
      · next value hvalue => exact ih hrest (.built hdoc hhead hvalue)

section Patches

variable {p : Patch} (hp : p ∈ s.patches)

include hp

theorem passes_runFrom (combination : Option Combination) (index : Nat)
    {operations : List Operation} (hmem : ∀ op ∈ operations, op ∈ p.operations)
    (hdoc : s.Passes strict doc) :
    Makes (Operation.runFrom (p.strict.getD strict) combination index operations doc)
      (s.Passes strict) := by
  induction operations generalizing doc index with
  | nil => exact Makes.ok hdoc
  | cons op rest ih =>
    obtain ⟨hop, hrest⟩ := List.forall_mem_cons.1 hmem
    have hrun : Makes (op.run (p.strict.getD strict) combination doc) (s.Passes strict) :=
      fun next hnext => .operation hdoc hp hop hnext
    exact (hrun.mapError _).bind fun next hnext => ih (index + 1) hrest hnext

theorem passes_runAll (combinations : List Combination) (hdoc : s.Passes strict doc) :
    Makes (Operation.runAll (p.strict.getD strict) p.operations combinations doc)
      (s.Passes strict) := by
  induction combinations generalizing doc with
  | nil => exact Makes.ok hdoc
  | cons c rest ih =>
    exact (passes_runFrom hp (some c) 1 (fun _ h => h) hdoc).bind fun next hnext => ih hnext

theorem passes_apply (hdoc : s.Passes strict doc) :
    Makes (p.apply strict doc) (s.Passes strict) := by
  unfold Patch.apply
  refine (Makes.trivial _).bind fun combinations _ => ?_
  cases combinations with
  | none => exact passes_runFrom hp none 1 (fun _ h => h) hdoc
  | some combinations => exact passes_runAll hp combinations hdoc

end Patches

theorem passes_applyPatches (path : DocPath) (index : Nat) {patches : List Patch}
    (hmem : ∀ p ∈ patches, p ∈ s.patches) (hdoc : s.Passes strict doc) :
    Makes (Build.applyPatches strict path index patches doc) (s.Passes strict) := by
  induction patches generalizing doc index with
  | nil => exact Makes.ok hdoc
  | cons p rest ih =>
    obtain ⟨hp, hrest⟩ := List.forall_mem_cons.1 hmem
    exact ((passes_apply hp hdoc).mapError _).bind fun next hnext => ih (index + 1) hrest hnext

/-- **What a document builds to** is the exported part of one that the build passes through,
    without the keys of its imports. -/
theorem makes_outcome (strict : Bool) (s : Source) :
    Makes (s.outcome strict) fun built => ∀ tree ∈ built, ∃ filter doc,
      s.exportFilter? = .ok (some filter) ∧ s.Passes strict doc ∧
        tree = filter.filter (Build.dropKeys (s.imports.map Prod.fst) doc) := by
  rw [outcome_eq]
  split
  · exact Makes.error _ _
  · exact Makes.ok fun tree htree => nomatch htree
  · next filter hfilter =>
    split
    · exact Makes.error _ _
    · next doc hdoc =>
      have hspliced : s.Passes strict doc :=
        passes_splicedImports s.path (fun _ h => h) .data doc hdoc
      have hfinish : Makes (Build.finish strict s filter doc) fun tree => ∃ last,
          s.Passes strict last ∧
            tree = filter.filter (Build.dropKeys (s.imports.map Prod.fst) last) :=
        (passes_applyPatches s.path 1 (fun _ h => h) hspliced).bind fun last hlast =>
          Makes.ok ⟨last, hlast, rfl⟩
      refine hfinish.map fun tree hshape other hother => ?_
      obtain rfl : tree = other := Option.some.inj hother
      obtain ⟨last, hlast, rfl⟩ := hshape
      exact ⟨filter, last, hfilter, hlast, rfl⟩

/-! ## §4. Shapes -/

section Shape

variable {filter : ExportFilter} {keys : List String}

/-- The exported part of a document without some keys has distinct keys, and none of these. -/
theorem distinct_filter_dropKeys (hdoc : doc.IsDocument) :
    (filter.filter (Build.dropKeys keys doc)).Distinct := by
  obtain ⟨fields, hdrop, hdistinct, -⟩ := Build.exists_dropKeys hdoc keys
  rw [hdrop]
  exact Tree.distinct_filterLeaves hdistinct

theorem not_mem_ownKeys_filter_dropKeys (hdoc : doc.IsDocument) {key : String} (hkey : key ∈ keys) :
    key ∉ (filter.filter (Build.dropKeys keys doc)).ownKeys := by
  obtain ⟨fields, hdrop, -, hgone⟩ := Build.exists_dropKeys hdoc keys
  rw [hdrop, ExportFilter.filter, Tree.filterLeaves_obj]
  intro hleft
  exact hgone key hkey ((Tree.keys_filterFields_sublist "" fields).subset hleft)

/-- The containers inside of it are not empty. -/
theorem full_filter_dropKeys (hdoc : doc.IsDocument) :
    ∀ t ∈ (filter.filter (Build.dropKeys keys doc)).inner, t.isEmptyContainer = false := by
  obtain ⟨fields, hdrop, -, -⟩ := Build.exists_dropKeys hdoc keys
  rw [hdrop]
  exact Tree.full_filterLeaves fields

end Shape

mutual

/-- What a document of a family builds to has distinct keys, since what its imports build to
    has. -/
theorem distinct_outcome {family : List Source} (hfamily : Coherent family)
    (hsound : ∀ s ∈ family, s.Sound) (strict : Bool) :
    (s : Source) → s ∈ family →
      Makes (s.outcome strict) fun built => ∀ tree ∈ built, tree.Distinct
  | .mk location data directives imports, hs => by
    have himports := hfamily.imports_mem _ hs
    have hbuilt := distinct_outcomes hfamily hsound strict imports himports
    refine (makes_outcome strict _).mono fun built hshape tree htree => ?_
    obtain ⟨filter, doc, -, hdoc, rfl⟩ := hshape tree htree
    refine distinct_filter_dropKeys (isDocument_of_passes (hsound _ hs) ?_ hdoc)
    exact fun imported hmem => ⟨hsound _ (himports imported hmem), hbuilt imported hmem⟩

theorem distinct_outcomes {family : List Source} (hfamily : Coherent family)
    (hsound : ∀ s ∈ family, s.Sound) (strict : Bool) :
    (imports : List (String × Source × Bool)) →
      (∀ imported ∈ imports, imported.2.1 ∈ family) → ∀ imported ∈ imports,
        Makes (imported.2.1.outcome strict) fun built => ∀ tree ∈ built, tree.Distinct
  | [], _ => fun _ hmem => nomatch hmem
  | (_, source, _) :: rest, hmem => by
    obtain ⟨hhead, hrest⟩ := List.forall_mem_cons.1 hmem
    exact List.forall_mem_cons.2 ⟨distinct_outcome hfamily hsound strict source hhead,
      distinct_outcomes hfamily hsound strict rest hrest⟩

end

end Source

/-- **The shape of what is built.**  Whatever a build of a loaded document passes through is an
    object: what is spliced into it is there afterwards, and the keys of the imports are gone
    once they are dropped.  What it builds to, whatever has been built before, is the exported
    part of such an object: an object without the keys of the imports, in which no container is
    empty. -/
theorem build_shape (l : Loader) (hmaps : l.io.ReadsMaps) (files : List String) (strict : Bool)
    {requests : List Source} (hrequests : ∀ r ∈ requests, r ∈ (l.loadAll files .empty).sources)
    {s : Source} (hs : s ∈ (l.loadAll files .empty).sources) :
    (∀ doc, s.Passes strict doc → doc.isObject = true ∧
      (∀ key value, (Build.splice key value doc).child? key = some value) ∧
      ∀ key ∈ s.imports.map Prod.fst,
        key ∉ (Build.dropKeys (s.imports.map Prod.fst) doc).ownKeys) ∧
    ∀ tree, (s.build strict (BuildState.buildAll strict requests .empty).2).1 = .ok (some tree) →
      (∃ filter doc, s.exportFilter? = .ok (some filter) ∧ s.Passes strict doc ∧
        tree = filter.filter (Build.dropKeys (s.imports.map Prod.fst) doc)) ∧
      tree.isObject = true ∧ (∀ key ∈ s.imports.map Prod.fst, key ∉ tree.ownKeys) ∧
      ∀ t ∈ tree.inner, t.isEmptyContainer = false := by
  have hfamily : Coherent (l.loadAll files .empty).sources :=
    (l.cacheInvariant_loadAll files cacheInvariant_nil).coherent
  have hsound : ∀ s ∈ (l.loadAll files .empty).sources, s.Sound :=
    Loader.sound_of_mem_sources hmaps files
  have hdocument : ∀ doc, s.Passes strict doc → doc.IsDocument := by
    intro doc hdoc
    refine Source.isDocument_of_passes (hsound s hs) (fun imported hmem => ?_) hdoc
    have himported := hfamily.imports_mem s hs imported hmem
    exact ⟨hsound _ himported, Source.distinct_outcome hfamily hsound strict _ himported⟩
  refine ⟨fun doc hdoc => ?_, fun tree htree => ?_⟩
  · refine ⟨(hdocument doc hdoc).isObject, ?_, ?_⟩
    · exact Build.child?_splice (hdocument doc hdoc).isObject
    · obtain ⟨fields, hdrop, -, hgone⟩ :=
        Build.exists_dropKeys (hdocument doc hdoc) (s.imports.map Prod.fst)
      rw [hdrop]
      exact hgone
  · -- the memo of the builder changes no answer
    obtain ⟨-, hmemo⟩ := BuildState.buildAll_sound hfamily hrequests (MemoSound.empty strict _)
    rw [((Source.build_sound hfamily).1 s _ hs hmemo).1] at htree
    obtain ⟨filter, doc, hfilter, hdoc, rfl⟩ := Source.makes_outcome strict s _ htree tree rfl
    refine ⟨⟨filter, doc, hfilter, hdoc, rfl⟩, filter.filter_isObject _, ?_, ?_⟩
    · exact fun key hkey => Source.not_mem_ownKeys_filter_dropKeys (hdocument doc hdoc) hkey
    · exact Source.full_filter_dropKeys (hdocument doc hdoc)

/-! ### A theme that becomes its own palette -/

/-- The palette: it exports all but an empty list, and it has a key of its importer. -/
def remixPalette : Tree :=
  .obj [("red", .str "#f00"), ("deep", .obj [("palette", .bool true), ("none", .arr [])]),
    ("$build", .obj [("exports", .arr [.str "**"])])]

/-- The theme copies its import over the root and writes under the key of the import. -/
def remixTheme : Tree :=
  .obj [("$build", .obj [("imports", .obj [("palette", .str "palette")]),
    ("patches", .arr [.obj [("operations", .arr [
      .obj [("op", .str "copy"), ("from", .str "/palette"), ("path", .str "")],
      .obj [("op", .str "add"), ("path", .str "/palette/extra"), ("value", .bool true)]])]]),
    ("exports", .arr [.str "**"])])]

/-- The loader of the theme. -/
def remixLoader : Loader where
  io :=
    { resolve := fun file _ => .ok (BuildState.samplePath file)
      files := [(BuildState.samplePath "palette", .empty), (BuildState.samplePath "theme", .empty)]
      parse := fun _ path =>
        .ok (if path = BuildState.samplePath "palette" then remixPalette else remixTheme) }
  root := ⟨true, [.name "tokens"]⟩

theorem readsMaps_remix : remixLoader.io.ReadsMaps := by
  intro bytes path
  refine Makes.ok ?_
  split
  · decide +kernel
  · decide +kernel

/-- The loaded palette. -/
def remixPaletteSource : Source :=
  remixLoader.sourceOf "palette" (BuildState.samplePath "palette")
    { data := .obj [("red", .str "#f00"),
        ("deep", .obj [("palette", .bool true), ("none", .arr [])])]
      directives := some { imports := [], patches := [], exports := some ⟨["**"], []⟩ } }
    []

/-- The loaded theme. -/
def remixThemeSource : Source :=
  remixLoader.sourceOf "theme" (BuildState.samplePath "theme")
    { data := .obj []
      directives := some
        { imports := [("palette", .file "palette")]
          patches := [Patch.ofOperations
            [.transfer .copy (.pointer "/palette") (.pointer "") none,
              .write .add (.pointer "/palette/extra") (.bool true) none]]
          exports := some ⟨["**"], []⟩ } }
    [("palette", remixPaletteSource, true)]

theorem sources_remix : (remixLoader.loadAll ["theme"] .empty).sources
    = [remixPaletteSource, remixThemeSource] := by
  have hpalette : remixLoader.loadIn [BuildState.samplePath "theme"] "palette"
      (LoadState.empty.noteRead (BuildState.samplePath "theme"))
        = (.ok remixPaletteSource,
            ((LoadState.empty.noteRead (BuildState.samplePath "theme")).noteRead
              (BuildState.samplePath "palette")).keep (BuildState.samplePath "palette")
                remixPaletteSource) :=
    Loader.loadIn_of_linked rfl rfl rfl Loader.loadImports_nil
  have htheme : remixLoader.load "theme" .empty
      = (.ok remixThemeSource,
          (((LoadState.empty.noteRead (BuildState.samplePath "theme")).noteRead
            (BuildState.samplePath "palette")).keep (BuildState.samplePath "palette")
              remixPaletteSource).keep (BuildState.samplePath "theme") remixThemeSource) :=
    Loader.loadIn_of_linked rfl rfl rfl
      (Loader.loadImports_of_loaded hpalette Loader.loadImports_nil)
  show (remixLoader.load "theme" .empty).2.sources = _
  rw [htheme]
  rfl

/-- What the theme builds to. -/
def remixed : Tree := .obj [("red", .str "#f00"), ("deep", .obj [("palette", .bool true)])]

/-- The key of the import is gone, also where the theme has written under it; the key that the
    palette has inside of it stays.  The palette has been built before. -/
theorem build_shape_remix :
    remixLoader.io.ReadsMaps ∧
      (∀ s ∈ [remixPaletteSource, remixThemeSource],
        s ∈ (remixLoader.loadAll ["theme"] .empty).sources) ∧
      (remixThemeSource.build false (BuildState.buildAll false [remixPaletteSource] .empty).2).1
        = .ok (some remixed) ∧
      "palette" ∉ remixed.ownKeys ∧ (∀ t ∈ remixed.inner, t.isEmptyContainer = false) ∧
      ∀ doc, remixThemeSource.Passes false doc → doc.isObject = true := by
  have hsources : ∀ s ∈ [remixPaletteSource, remixThemeSource],
      s ∈ (remixLoader.loadAll ["theme"] .empty).sources := fun s hs => sources_remix ▸ hs
  obtain ⟨hpalette, htheme⟩ := List.forall_mem_cons.1 hsources
  have hbuild : (remixThemeSource.build false
      (BuildState.buildAll false [remixPaletteSource] .empty).2).1 = .ok (some remixed) :=
    eq_ok_of_toOption (by decide +kernel)
  obtain ⟨hpasses, hshape⟩ := build_shape remixLoader readsMaps_remix ["theme"] false
    (List.forall_mem_singleton.2 hpalette) (htheme remixThemeSource List.mem_cons_self)
  obtain ⟨-, -, hgone, hfull⟩ := hshape remixed hbuild
  exact ⟨readsMaps_remix, hsources, hbuild, hgone "palette" List.mem_cons_self, hfull,
    fun doc hdoc => (hpasses doc hdoc).1⟩

end DesignTokens
