/-
  DesignTokens.Proofs.Source.History — the outcome of a load does not depend on earlier loads.

  A loader skips what it has loaded before, so it takes other steps than a new one would.  It
  comes to the same end all the same.  A cache is true when every document in it is what the
  references to it unfold to, below any chain that keeps off the cache; loading keeps it true,
  and with a true cache a load comes to what its reference unfolds to.

  That a document is skipped hides no failure.  All that it imports is cached too, and a chain
  keeps off the cache: so no import below the document can lead back into the chain, and none
  can fail.  What is lost by skipping is only how the documents were referred to.

  Main facts:
    * `agrees_loading` — with a true cache, a load comes to what its reference unfolds to.
    * `load_eq_unfold` — so a load answers as an unfolding, after any history.
    * `load_independent_of_history` — a used loader answers as a new one.
-/
import DesignTokens.Proofs.Source.Cache
import DesignTokens.Proofs.Source.Unfolding

namespace DesignTokens

/-! ## §1. Sources without their spellings -/

namespace Source

mutual

/-- The source without the references by which its documents were loaded. -/
def unspelled : Source → Source
  | .mk location data directives imports =>
    .mk { location with file := "" } data directives (unspelledImports imports)

/-- Imports without the references by which their documents were loaded. -/
def unspelledImports : List (String × Source × Bool) → List (String × Source × Bool)
  | [] => []
  | (key, source, build) :: rest => (key, unspelled source, build) :: unspelledImports rest

end

end Source

open Source

/-- A source is told apart from another one of its document by its imports alone. -/
theorem unspelled_sourceOf (l : Loader) (file : String) (path : DocPath) (document : Document)
    (imports : List (String × Source × Bool)) :
    (l.sourceOf file path document imports).unspelled
      = l.sourceOf "" path document (unspelledImports imports) := rfl

/-! ## §2. True caches -/

/-- Nothing on the chain has been loaded. -/
def KeepsOff (chain : List DocPath) (state : LoadState) : Prop :=
  ∀ path ∈ chain, state.find? path = none

theorem keepsOff_nil (state : LoadState) : KeepsOff [] state := by
  intro path hpath
  cases hpath

theorem keepsOff_append_iff {chain : List DocPath} {path : DocPath} {state : LoadState} :
    KeepsOff (chain ++ [path]) state ↔ KeepsOff chain state ∧ state.find? path = none := by
  constructor
  · intro h
    exact ⟨fun p hp => h p (List.mem_append_left _ hp), h path (by simp)⟩
  · rintro ⟨hchain, hpath⟩ p hp
    rcases List.mem_append.1 hp with hp | hp
    · exact hchain p hp
    · rw [List.mem_singleton.1 hp]
      exact hpath

/-- A chain keeps off one more document when it kept off all others and does not hold it. -/
theorem keepsOff_keep_iff {chain : List DocPath} {state : LoadState} {path : DocPath}
    {source : Source} :
    KeepsOff chain (state.keep path source) ↔ KeepsOff chain state ∧ path ∉ chain := by
  have hfind : ∀ p, p ≠ path → (state.keep path source).find? p = state.find? p :=
    fun p hp => Entries.get?_put_of_ne hp source state.cache
  constructor
  · intro h
    have hnew : path ∉ chain := by
      intro hmem
      have hsome : (state.keep path source).find? path = some source :=
        Entries.get?_put_self path source state.cache
      rw [h path hmem] at hsome
      cases hsome
    refine ⟨fun p hp => ?_, hnew⟩
    rw [← hfind p (fun heq => hnew (heq ▸ hp))]
    exact h p hp
  · rintro ⟨h, hnew⟩ p hp
    rw [hfind p (fun heq => hnew (heq ▸ hp))]
    exact h p hp

namespace Loader

/-- A cache in which every document is what the references to it unfold to, below any chain that
    keeps off the cache. -/
def CacheTrue (l : Loader) (state : LoadState) : Prop :=
  ∀ path source, state.find? path = some source →
    ∀ chain file, KeepsOff chain state → l.target? file = some path →
      (l.unfoldIn chain file).map unspelled = .ok source.unspelled

theorem cacheTrue_empty (l : Loader) : l.CacheTrue .empty := by
  intro path source hfind
  cases hfind

variable {l : Loader} {chain : List DocPath} {file : String} {path : DocPath}
  {document : Document} {imports : List (String × Source × Bool)}

/-- The source of a document, up to spelling, once it is known what its imports unfold to. -/
theorem unfoldIn_of_imports (htarget : l.target? file = some path)
    (hdocument : l.document? path = some document) (hnew : path ∉ chain)
    (himports : (l.unfoldImports (chain ++ [path]) document.importSpecs).map unspelledImports
      = .ok (unspelledImports imports)) (spelling : String) :
    (l.unfoldIn chain file).map unspelled
      = .ok (l.sourceOf spelling path document imports).unspelled := by
  have hlocate : l.locate chain file = .ok path := locate_eq_ok_iff.2 ⟨htarget, hnew⟩
  have hfetch : l.fetch chain path = .ok document := fetch_eq_ok_iff.2 hdocument
  obtain ⟨unfolded, hunfolded, hsame⟩ := map_eq_ok_iff.1 himports
  rw [unfoldIn_of_fetched hlocate hfetch, hunfolded]
  show Except.ok (l.sourceOf file path document unfolded).unspelled = _
  rw [unspelled_sourceOf, unspelled_sourceOf, hsame]

/-- A cache stays true when a document comes to it whose imports unfold, below any chain that
    keeps off the cache and off the document, to those that it has. -/
theorem CacheTrue.keep {state : LoadState} (h : l.CacheTrue state)
    (hdocument : l.document? path = some document) (hfree : state.find? path = none)
    (himports : ∀ other, KeepsOff other state →
      (l.unfoldImports other document.importSpecs).map unspelledImports
        = .ok (unspelledImports imports)) :
    l.CacheTrue (state.keep path (l.sourceOf file path document imports)) := by
  intro p source hfind other reference hother htarget
  obtain ⟨hoff, hnew⟩ := keepsOff_keep_iff.1 hother
  by_cases hp : p = path
  · -- the new document: its imports are unfolded below a chain that it has joined
    subst hp
    have hsource : some (l.sourceOf file p document imports) = some source := by
      rw [← hfind]
      exact (Entries.get?_put_self p _ state.cache).symm
    obtain rfl := Option.some.inj hsource
    exact unfoldIn_of_imports htarget hdocument hnew
      (himports _ (keepsOff_append_iff.2 ⟨hoff, hfree⟩)) file
  · have hold : state.find? p = some source := by
      rw [← hfind]
      exact (Entries.get?_put_of_ne hp _ state.cache).symm
    exact h p source hold other reference hoff htarget

/-! ## §3. Loads and unfoldings -/

/-- What a load below a chain that keeps off a true cache comes to: the cache has grown and is
    still true, the chain still keeps off it, a failure is that of the unfolding, and so is the
    answer up to spelling, below whatever chain keeps off the cache. -/
structure LoadAgrees (l : Loader) (chain : List DocPath) (file : String) (state : LoadState)
    (r : Except LoadError Source × LoadState) : Prop where
  keepsOff : KeepsOff chain r.2
  grown : ∀ other, KeepsOff other r.2 → KeepsOff other state
  cacheTrue : l.CacheTrue r.2
  failed : ∀ e, r.1 = .error e → l.unfoldIn chain file = .error e
  loaded : ∀ source, r.1 = .ok source → ∀ other, KeepsOff other r.2 →
    (l.unfoldIn other file).map unspelled = .ok source.unspelled

/-- The same of the imports of a document. -/
structure ImportsAgree (l : Loader) (chain : List DocPath) (specs : Entries ImportSpec)
    (state : LoadState) (r : Except LoadError (List (String × Source × Bool)) × LoadState) :
    Prop where
  keepsOff : KeepsOff chain r.2
  grown : ∀ other, KeepsOff other r.2 → KeepsOff other state
  cacheTrue : l.CacheTrue r.2
  failed : ∀ e, r.1 = .error e → l.unfoldImports chain specs = .error e
  loaded : ∀ imports, r.1 = .ok imports → ∀ other, KeepsOff other r.2 →
    (l.unfoldImports other specs).map unspelledImports = .ok (unspelledImports imports)

/-- An import that was loaded goes in front of the others. -/
theorem unfoldImports_of_loaded {key : String} {spec : ImportSpec} {rest : Entries ImportSpec}
    {source : Source} (hhead : (l.unfoldIn chain spec.source).map unspelled = .ok source.unspelled)
    (htail : (l.unfoldImports chain rest).map unspelledImports = .ok (unspelledImports imports)) :
    (l.unfoldImports chain ((key, spec) :: rest)).map unspelledImports
      = .ok (unspelledImports ((key, source, spec.build) :: imports)) := by
  obtain ⟨unfolded, hunfolded, hsource⟩ := map_eq_ok_iff.1 hhead
  obtain ⟨others, hothers, himports⟩ := map_eq_ok_iff.1 htail
  rw [unfoldImports_of_head hunfolded, hothers]
  show Except.ok ((key, unfolded.unspelled, spec.build) :: unspelledImports others) = _
  rw [hsource, himports]
  rfl

/-- **With a true cache, a load comes to what its reference unfolds to.** -/
theorem agrees_loading (l : Loader) :
    (∀ chain file state, KeepsOff chain state → l.CacheTrue state →
      LoadAgrees l chain file state (l.loadIn chain file state)) ∧
    (∀ chain specs state, KeepsOff chain state → l.CacheTrue state →
      ImportsAgree l chain specs state (l.loadImports chain specs state)) := by
  refine loading_induction
    (P := fun chain file state r => KeepsOff chain state → l.CacheTrue state →
      LoadAgrees l chain file state r)
    (Q := fun chain specs state r => KeepsOff chain state → l.CacheTrue state →
      ImportsAgree l chain specs state r)
    ?unlocated ?cached ?unfetched ?unlinked ?loaded ?nil ?headFailed ?tailFailed ?cons
  case unlocated =>
    intro chain file state e hlocate hoff htrue
    refine ⟨hoff, fun _ h => h, htrue, ?_, ?_⟩
    · intro e' he
      obtain rfl : e = e' := Except.error.inj he
      exact unfoldIn_of_unlocated hlocate
    · intro source hsource
      cases hsource
  case cached =>
    intro chain file state path source hlocate hfind hoff htrue
    obtain ⟨htarget, -⟩ := locate_eq_ok_iff.1 hlocate
    refine ⟨hoff, fun _ h => h, htrue, ?_, ?_⟩
    · intro e he
      cases he
    · intro answer hanswer other hother
      -- nothing is unfolded here; that the cache is true says what would come of it
      obtain rfl : source = answer := Except.ok.inj hanswer
      exact htrue path source hfind other file hother htarget
  case unfetched =>
    intro chain file state path e hlocate _ hfetch hoff htrue
    refine ⟨hoff, fun _ h => h, htrue, ?_, ?_⟩
    · intro e' he
      obtain rfl : e = e' := Except.error.inj he
      exact unfoldIn_of_unfetched hlocate hfetch
    · intro source hsource
      cases hsource
  case unlinked =>
    intro chain file state path document e next hlocate hfind hfetch ih hoff htrue
    have hbelow : ImportsAgree l (chain ++ [path]) document.importSpecs (state.noteRead path)
        (.error e, next) := ih (keepsOff_append_iff.2 ⟨hoff, hfind⟩) htrue
    refine ⟨(keepsOff_append_iff.1 hbelow.keepsOff).1, hbelow.grown, hbelow.cacheTrue, ?_, ?_⟩
    · intro e' he
      obtain rfl : e = e' := Except.error.inj he
      rw [unfoldIn_of_fetched hlocate hfetch, hbelow.failed e rfl]
      rfl
    · intro source hsource
      cases hsource
  case loaded =>
    intro chain file state path document imports next hlocate hfind hfetch ih hoff htrue
    have hbelow : ImportsAgree l (chain ++ [path]) document.importSpecs (state.noteRead path)
        (.ok imports, next) := ih (keepsOff_append_iff.2 ⟨hoff, hfind⟩) htrue
    obtain ⟨htarget, hnew⟩ := locate_eq_ok_iff.1 hlocate
    have hdocument : l.document? path = some document := fetch_eq_ok_iff.1 hfetch
    -- the imports were loaded below the document, so nothing was put under its path
    obtain ⟨hchain, hfree⟩ := keepsOff_append_iff.1 hbelow.keepsOff
    refine ⟨keepsOff_keep_iff.2 ⟨hchain, hnew⟩, ?_, ?_, ?_, ?_⟩
    · intro other hother
      exact hbelow.grown other (keepsOff_keep_iff.1 hother).1
    · exact hbelow.cacheTrue.keep hdocument hfree (hbelow.loaded imports rfl)
    · intro e he
      cases he
    · intro source hsource other hother
      obtain rfl : l.sourceOf file path document imports = source := Except.ok.inj hsource
      obtain ⟨hotherOff, hotherNew⟩ := keepsOff_keep_iff.1 hother
      exact unfoldIn_of_imports htarget hdocument hotherNew
        (hbelow.loaded imports rfl _ (keepsOff_append_iff.2 ⟨hotherOff, hfree⟩)) file
  case nil =>
    intro chain state hoff htrue
    refine ⟨hoff, fun _ h => h, htrue, ?_, ?_⟩
    · intro e he
      cases he
    · intro imports himports other _
      obtain rfl : [] = imports := Except.ok.inj himports
      rw [unfoldImports_nil]
      rfl
  case headFailed =>
    intro chain state key spec rest e next ih hoff htrue
    have hhead := ih hoff htrue
    refine ⟨hhead.keepsOff, hhead.grown, hhead.cacheTrue, ?_, ?_⟩
    · intro e' he
      obtain rfl : e = e' := Except.error.inj he
      exact unfoldImports_of_headFailed (hhead.failed e rfl)
    · intro imports himports
      cases himports
  case tailFailed =>
    intro chain state key spec rest source mid e next ih₁ ih₂ hoff htrue
    have hhead := ih₁ hoff htrue
    have htail := ih₂ hhead.keepsOff hhead.cacheTrue
    refine ⟨htail.keepsOff, fun other h => hhead.grown other (htail.grown other h),
      htail.cacheTrue, ?_, ?_⟩
    · intro e' he
      -- the unfolding gets past the first import too, and fails where the loading does
      obtain ⟨unfolded, hunfolded, -⟩ :=
        map_eq_ok_iff.1 (hhead.loaded source rfl chain hhead.keepsOff)
      rw [unfoldImports_of_head hunfolded, htail.failed e' he]
      rfl
    · intro imports himports
      cases himports
  case cons =>
    intro chain state key spec rest source mid imports next ih₁ ih₂ hoff htrue
    have hhead := ih₁ hoff htrue
    have htail := ih₂ hhead.keepsOff hhead.cacheTrue
    refine ⟨htail.keepsOff, fun other h => hhead.grown other (htail.grown other h),
      htail.cacheTrue, ?_, ?_⟩
    · intro e he
      cases he
    · intro all hall other hother
      obtain rfl : (key, source, spec.build) :: imports = all := Except.ok.inj hall
      exact unfoldImports_of_loaded (hhead.loaded source rfl other (htail.grown other hother))
        (htail.loaded imports rfl other hother)

/-- With a true cache, a load answers as the unfolding of its reference, up to spelling. -/
theorem load_eq_unfold {state : LoadState} (h : l.CacheTrue state) (file : String) :
    (l.load file state).1.map unspelled = (l.unfold file).map unspelled := by
  have hagrees : LoadAgrees l [] file state (l.load file state) :=
    l.agrees_loading.1 [] file state (keepsOff_nil state) h
  cases hresult : (l.load file state).1 with
  | error e =>
    have hfailed : l.unfold file = .error e := hagrees.failed e hresult
    rw [hfailed]
  | ok source =>
    exact (hagrees.loaded source hresult [] (keepsOff_nil _)).symm

/-! ## §4. Histories -/

theorem cacheTrue_load (file : String) {state : LoadState} (h : l.CacheTrue state) :
    l.CacheTrue (l.load file state).2 :=
  (l.agrees_loading.1 [] file state (keepsOff_nil state) h).cacheTrue

theorem cacheTrue_loadAll (files : List String) {state : LoadState} (h : l.CacheTrue state) :
    l.CacheTrue (l.loadAll files state) := by
  induction files generalizing state with
  | nil => exact h
  | cons file rest ih => exact ih (cacheTrue_load file h)

/-- **The outcome of a load does not depend on history.**  Whatever was loaded before, and
    whatever came of it: a load succeeds on a used loader exactly when it does on a new one, the
    sources are then equal up to the spelling of references, and a failure is the same failure,
    with its trace or its chain. -/
theorem load_independent_of_history (l : Loader) (history : List String) (file : String) :
    ((∃ used, (l.load file (l.loadAll history .empty)).1 = .ok used) ↔
      ∃ fresh, (l.load file .empty).1 = .ok fresh) ∧
    (∀ used fresh, (l.load file (l.loadAll history .empty)).1 = .ok used →
      (l.load file .empty).1 = .ok fresh → used.unspelled = fresh.unspelled) ∧
    (∀ e, (l.load file (l.loadAll history .empty)).1 = .error e ↔
      (l.load file .empty).1 = .error e) := by
  have hsame : (l.load file (l.loadAll history .empty)).1.map unspelled
      = (l.load file .empty).1.map unspelled :=
    (load_eq_unfold (cacheTrue_loadAll history l.cacheTrue_empty) file).trans
      (load_eq_unfold l.cacheTrue_empty file).symm
  refine ⟨exists_eq_ok_iff_of_map_eq hsame, ?_, eq_error_iff_of_map_eq hsame⟩
  intro used fresh hused hfresh
  rw [hused, hfresh] at hsame
  exact Except.ok.inj hsame

end Loader

end DesignTokens
