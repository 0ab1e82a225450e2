/-
  DesignTokens.Proofs.Source.Cache — the loaded documents stay complete and in order.

  A cache is in order when every document stands in it once, under its own folded path, and
  behind everything that it imports.  Loading keeps a cache in order, whatever comes of it: a
  document enters the cache only when all its imports are there, and what stands there already
  is never touched.

  A load below a chain of documents may add documents, but none of the chain.  This is what
  makes room for the document itself once its imports are loaded: no import can have put
  anything under its path.

  Main facts:
    * `grown_loadIn` — a load adds documents to the end, and none of the chain above it.
    * `cacheInvariant_load` — loading keeps a cache in order.
    * `mem_cache_of_load` — what a load answers stands in the cache.
    * `cache_in_order` — the cache after any number of loads.
-/
import DesignTokens.Source.Loader
import Mathlib.Logic.Relation
import Mathlib.Tactic.Set

namespace DesignTokens

/-! ## §1. Caches in order -/

namespace Source

/-- The keys of the imports of a source, each with the choice whether it is built. -/
def links (s : Source) : List (String × Bool) :=
  s.imports.map fun (key, _, build) => (key, build)

/-- The keys of the declared imports, each with the choice whether it is built. -/
def declaredLinks (s : Source) : List (String × Bool) :=
  ((s.directives.map (·.imports)).getD []).map fun (key, spec) => (key, spec.build)

end Source

/-- What holds of the document at one position of a cache. -/
structure EntryInvariant (cache : List (DocPath × Source)) (i : Nat) (path : DocPath)
    (s : Source) : Prop where
  /-- It stands under its own path. -/
  path_eq : s.location.path = path
  /-- Its path is folded. -/
  folded : path.normalize = path
  /-- It has the imports that it declares. -/
  links_eq : s.links = s.declaredLinks
  /-- Its imports stand before it, each under its own path. -/
  imports_before : ∀ imported ∈ s.imports,
    ∃ j < i, cache[j]? = some (imported.2.1.path, imported.2.1)

/-- A cache in order. -/
structure CacheInvariant (cache : List (DocPath × Source)) : Prop where
  /-- Every path stands there once. -/
  nodup : (Entries.keys cache).Nodup
  entry : ∀ i path s, cache[i]? = some (path, s) → EntryInvariant cache i path s

/-- A cached document imports another one. -/
def ImportEdge (cache : List (DocPath × Source)) (path imported : DocPath) : Prop :=
  ∃ s, (path, s) ∈ cache ∧ ∃ i ∈ s.imports, i.2.1.path = imported

theorem cacheInvariant_nil : CacheInvariant [] where
  nodup := List.nodup_nil
  entry i path s h := by simp at h

namespace CacheInvariant

variable {cache : List (DocPath × Source)}

/-- Two documents under one path are one document at one position. -/
theorem position_unique (h : CacheInvariant cache) {i j : Nat} {path : DocPath} {s t : Source}
    (hi : cache[i]? = some (path, s)) (hj : cache[j]? = some (path, t)) : i = j := by
  have hkeys : (Entries.keys cache)[i]? = (Entries.keys cache)[j]? := by
    simp [Entries.keys, hi, hj]
  obtain ⟨hlt, -⟩ := List.getElem?_eq_some_iff.1 hi
  exact (List.getElem?_inj (by simpa [Entries.keys] using hlt) h.nodup).1 hkeys

theorem path_eq_of_mem (h : CacheInvariant cache) {path : DocPath} {s : Source}
    (hmem : (path, s) ∈ cache) : s.path = path := by
  obtain ⟨i, hi⟩ := List.mem_iff_getElem?.1 hmem
  exact (h.entry i path s hi).path_eq

/-- An import stands at a smaller position than the document that imports it. -/
theorem positions_of_edge (h : CacheInvariant cache) {path imported : DocPath}
    (hedge : ImportEdge cache path imported) :
    ∃ (i j : Nat) (s t : Source),
      cache[i]? = some (path, s) ∧ cache[j]? = some (imported, t) ∧ j < i := by
  obtain ⟨s, hmem, entry, hentry, rfl⟩ := hedge
  obtain ⟨i, hi⟩ := List.mem_iff_getElem?.1 hmem
  obtain ⟨j, hlt, hj⟩ := (h.entry i path s hi).imports_before entry hentry
  exact ⟨i, j, s, entry.2.1, hi, hj, hlt⟩

/-- No document imports itself, directly or through others. -/
theorem acyclic (h : CacheInvariant cache) (path : DocPath) :
    ¬ Relation.TransGen (ImportEdge cache) path path := by
  -- along a chain of imports the position falls, so the chain cannot come back
  have hfalls : ∀ {a b : DocPath}, Relation.TransGen (ImportEdge cache) a b →
      ∃ (i j : Nat) (s t : Source),
        cache[i]? = some (a, s) ∧ cache[j]? = some (b, t) ∧ j < i := by
    intro a b hab
    induction hab with
    | single hedge => exact h.positions_of_edge hedge
    | tail _ hedge ih =>
      obtain ⟨i, j, s, t, hi, hj, hji⟩ := ih
      obtain ⟨j', k, t', u, hj', hk, hkj⟩ := h.positions_of_edge hedge
      have hjj : j' = j := h.position_unique hj' hj
      exact ⟨i, k, s, u, hi, hk, by omega⟩
  intro hcycle
  obtain ⟨i, j, s, t, hi, hj, hji⟩ := hfalls hcycle
  have hij : i = j := h.position_unique hi hj
  omega

end CacheInvariant

/-! ## §2. One more document -/

/-- What loading below a chain makes of the cache: documents are added to the end, and none of
    the chain. -/
def Grown (chain : List DocPath) (state next : LoadState) : Prop :=
  ∃ added, next.cache = state.cache ++ added ∧ ∀ path ∈ Entries.keys added, path ∉ chain

namespace Grown

variable {chain : List DocPath} {state mid next : LoadState}

theorem refl (chain : List DocPath) (state : LoadState) : Grown chain state state :=
  ⟨[], by simp, by simp [Entries.keys]⟩

theorem trans (h₁ : Grown chain state mid) (h₂ : Grown chain mid next) :
    Grown chain state next := by
  obtain ⟨first, hfirst, hnew₁⟩ := h₁
  obtain ⟨second, hsecond, hnew₂⟩ := h₂
  refine ⟨first ++ second, by rw [hsecond, hfirst, List.append_assoc], ?_⟩
  intro path hpath
  rw [Entries.keys, List.map_append, List.mem_append] at hpath
  rcases hpath with hpath | hpath
  · exact hnew₁ path hpath
  · exact hnew₂ path hpath

/-- What keeps off a longer chain keeps off a shorter one. -/
theorem of_append {path : DocPath} (h : Grown (chain ++ [path]) state next) :
    Grown chain state next := by
  obtain ⟨added, hadded, hnew⟩ := h
  exact ⟨added, hadded, fun p hp hmem => hnew p hp (List.mem_append_left _ hmem)⟩

/-- Nothing is put under the paths of the chain. -/
theorem find?_eq_none (h : Grown chain state next) {path : DocPath} (hmem : path ∈ chain)
    (hnone : state.find? path = none) : next.find? path = none := by
  obtain ⟨added, hadded, hnew⟩ := h
  rw [LoadState.find?, Entries.get?_eq_none_iff] at hnone ⊢
  rw [hadded, Entries.keys, List.map_append, List.mem_append, not_or]
  exact ⟨hnone, fun hin => hnew path hin hmem⟩

theorem prefix_cache (h : Grown chain state next) : state.cache <+: next.cache := by
  obtain ⟨added, hadded, -⟩ := h
  exact ⟨added, hadded.symm⟩

theorem mem_cache (h : Grown chain state next) {entry : DocPath × Source}
    (hmem : entry ∈ state.cache) : entry ∈ next.cache :=
  h.prefix_cache.subset hmem

end Grown

/-- A document that is new to the cache goes to its end. -/
theorem cache_keep {state : LoadState} {path : DocPath} (h : state.find? path = none)
    (s : Source) : (state.keep path s).cache = state.cache ++ [(path, s)] := by
  rw [LoadState.find?, Entries.get?_eq_none_iff] at h
  exact Entries.put_of_not_mem h s

/-- A cache in order stays so when a document comes to its end whose imports stand there. -/
theorem CacheInvariant.concat {cache : List (DocPath × Source)} (h : CacheInvariant cache)
    {path : DocPath} {s : Source} (hnew : path ∉ Entries.keys cache)
    (hpath : s.location.path = path) (hfolded : path.normalize = path)
    (hlinks : s.links = s.declaredLinks)
    (himports : ∀ imported ∈ s.imports, (imported.2.1.path, imported.2.1) ∈ cache) :
    CacheInvariant (cache ++ [(path, s)]) where
  nodup := by
    rw [Entries.keys, List.map_append]
    refine List.nodup_append.2 ⟨h.nodup, by simp, ?_⟩
    intro a ha b hb hab
    have hb : b = path := by simpa using hb
    exact hnew (by rw [← hb, ← hab]; exact ha)
  entry i p t hi := by
    by_cases hlt : i < cache.length
    · -- an entry that stood there before: its imports have kept their positions
      rw [List.getElem?_append_left hlt] at hi
      obtain ⟨hpath, hfolded, hlinks, hbefore⟩ := h.entry i p t hi
      refine ⟨hpath, hfolded, hlinks, fun imported hmem => ?_⟩
      obtain ⟨j, hji, hj⟩ := hbefore imported hmem
      exact ⟨j, hji, by rw [List.getElem?_append_left (by omega)]; exact hj⟩
    · -- the new entry, whose imports all stand before the end
      have hi' : i = cache.length ∧ path = p ∧ s = t := by
        rw [List.getElem?_append_right (by omega), List.getElem?_singleton] at hi
        split at hi
        · next hzero =>
          have hpair : path = p ∧ s = t := by simpa using hi
          exact ⟨by omega, hpair⟩
        · simp at hi
      obtain ⟨rfl, rfl, rfl⟩ := hi'
      refine ⟨hpath, hfolded, hlinks, fun imported hmem => ?_⟩
      obtain ⟨j, hj⟩ := List.mem_iff_getElem?.1 (himports imported hmem)
      obtain ⟨hlt, -⟩ := List.getElem?_eq_some_iff.1 hj
      exact ⟨j, hlt, by rw [List.getElem?_append_left hlt]; exact hj⟩

/-! ## §3. Loads -/

/-- What a load below a chain keeps: the cache grows off the chain, it stays in order, and an
    answer stands in it. -/
structure LoadKeeps (chain : List DocPath) (state : LoadState)
    (r : Except LoadError Source × LoadState) : Prop where
  grown : Grown chain state r.2
  invariant : CacheInvariant state.cache → CacheInvariant r.2.cache
  answer : CacheInvariant state.cache → ∀ s, r.1 = .ok s → (s.path, s) ∈ r.2.cache

/-- What loading the imports of a document keeps: moreover they are those that it declares. -/
structure ImportsKeep (chain : List DocPath) (specs : Entries ImportSpec) (state : LoadState)
    (r : Except LoadError (List (String × Source × Bool)) × LoadState) : Prop where
  grown : Grown chain state r.2
  invariant : CacheInvariant state.cache → CacheInvariant r.2.cache
  links : ∀ imports, r.1 = .ok imports →
    (imports.map fun (key, _, build) => (key, build))
      = specs.map fun (key, spec) => (key, spec.build)
  answer : CacheInvariant state.cache → ∀ imports, r.1 = .ok imports →
    ∀ imported ∈ imports, (imported.2.1.path, imported.2.1) ∈ r.2.cache

namespace Loader

theorem keeps_loading (l : Loader) :
    (∀ chain file state, LoadKeeps chain state (l.loadIn chain file state)) ∧
      (∀ chain specs state, ImportsKeep chain specs state (l.loadImports chain specs state)) := by
  refine loading_induction (P := fun chain _ => LoadKeeps chain) (Q := ImportsKeep)
    ?unlocated ?cached ?unfetched ?unlinked ?loaded ?nil ?headFailed ?tailFailed ?cons
  case unlocated =>
    intro chain file state e _
    exact ⟨.refl chain state, id, by simp⟩
  case cached =>
    intro chain file state path source _ hfind
    refine ⟨.refl chain state, id, fun hinv s hs => ?_⟩
    obtain rfl : source = s := by simpa using hs
    have hmem : (path, source) ∈ state.cache := Entries.mem_of_get? hfind
    rw [hinv.path_eq_of_mem hmem]
    exact hmem
  case unfetched =>
    intro chain file state path e _ _ _
    exact ⟨.refl chain state, id, by simp⟩
  case unlinked =>
    intro chain file state path document e next _ _ _ h
    exact ⟨h.grown.of_append, h.invariant, by simp⟩
  case loaded =>
    intro chain file state path document imports next hlocate hfind _ h
    obtain ⟨resolved, -, hpath, -, hnew⟩ := locate_ok hlocate
    set source := l.sourceOf file path document imports with hsource
    -- the imports were loaded below a chain that ends in `path`, so `path` is still free
    have hfree : next.find? path = none := h.grown.find?_eq_none (by simp) hfind
    have hcache : (next.keep path source).cache = next.cache ++ [(path, source)] :=
      cache_keep hfree source
    have hgrown : Grown chain next (next.keep path source) :=
      ⟨[(path, source)], hcache, by simpa [Entries.keys] using hnew⟩
    have hinvariant : CacheInvariant state.cache →
        CacheInvariant (next.keep path source).cache := by
      intro hinv
      rw [hcache]
      refine (h.invariant hinv).concat ?_ rfl ?_ (h.links imports rfl) (h.answer hinv imports rfl)
      · exact Entries.get?_eq_none_iff.1 hfree
      · rw [hpath, DocPath.normalize_normalize]
    refine ⟨h.grown.of_append.trans hgrown, hinvariant, fun _ s hs => ?_⟩
    obtain rfl : source = s := by simpa using hs
    show (path, source) ∈ (next.keep path source).cache
    rw [hcache]
    simp
  case nil =>
    intro chain state
    exact ⟨.refl chain state, id, by simp, by simp⟩
  case headFailed =>
    intro chain state key spec rest e next h
    exact ⟨h.grown, h.invariant, by simp, by simp⟩
  case tailFailed =>
    intro chain state key spec rest source mid e next h₁ h₂
    exact ⟨h₁.grown.trans h₂.grown, fun hinv => h₂.invariant (h₁.invariant hinv), by simp,
      by simp⟩
  case cons =>
    intro chain state key spec rest source mid imports next h₁ h₂
    refine ⟨h₁.grown.trans h₂.grown, fun hinv => h₂.invariant (h₁.invariant hinv), ?_, ?_⟩
    · intro all hall
      obtain rfl : (key, source, spec.build) :: imports = all := by simpa using hall
      rw [List.map_cons, List.map_cons, h₂.links imports rfl]
    · intro hinv all hall imported hmem
      obtain rfl : (key, source, spec.build) :: imports = all := by simpa using hall
      rcases List.mem_cons.1 hmem with rfl | hmem
      · exact h₂.grown.mem_cache (h₁.answer hinv source rfl)
      · exact h₂.answer (h₁.invariant hinv) imports rfl imported hmem

/-- Loading only adds documents to the end of the cache. -/
theorem prefix_cache_load (l : Loader) (file : String) (state : LoadState) :
    state.cache <+: (l.load file state).2.cache :=
  (l.keeps_loading.1 [] file state).grown.prefix_cache

/-- Loading keeps a cache in order. -/
theorem cacheInvariant_load (l : Loader) (file : String) {state : LoadState}
    (h : CacheInvariant state.cache) : CacheInvariant (l.load file state).2.cache :=
  (l.keeps_loading.1 [] file state).invariant h

/-- What a load answers stands in the cache. -/
theorem mem_cache_of_load {l : Loader} {file : String} {state : LoadState} {s : Source}
    (h : CacheInvariant state.cache) (hload : (l.load file state).1 = .ok s) :
    (s.path, s) ∈ (l.load file state).2.cache :=
  (l.keeps_loading.1 [] file state).answer h s hload

/-! ## §4. Runs -/

/-- The state after loading documents one after the other, whatever comes of each. -/
def loadAll (l : Loader) (files : List String) (state : LoadState) : LoadState :=
  files.foldl (fun state file => (l.load file state).2) state

theorem cacheInvariant_loadAll (l : Loader) (files : List String) {state : LoadState}
    (h : CacheInvariant state.cache) : CacheInvariant (l.loadAll files state).cache := by
  induction files generalizing state with
  | nil => exact h
  | cons file rest ih => exact ih (l.cacheInvariant_load file h)

/-- **The cache after any number of loads**, failed ones among them: it is in order, no document
    in it imports itself, and the next load only adds to its end. -/
theorem cache_in_order (l : Loader) (files : List String) :
    CacheInvariant (l.loadAll files .empty).cache ∧
      (∀ path, ¬ Relation.TransGen (ImportEdge (l.loadAll files .empty).cache) path path) ∧
      ∀ file, (l.loadAll files .empty).cache
        <+: (l.load file (l.loadAll files .empty)).2.cache := by
  have hinv : CacheInvariant (l.loadAll files .empty).cache :=
    l.cacheInvariant_loadAll files cacheInvariant_nil
  exact ⟨hinv, hinv.acyclic, fun file => l.prefix_cache_load file _⟩

end Loader

/-! ## §5. The documents of a cache -/

/-- The documents that have been loaded. -/
def LoadState.sources (state : LoadState) : List Source := state.cache.map Prod.snd

/-- A family of documents that holds all their imports, and one document for a path. -/
structure Coherent (family : List Source) : Prop where
  imports_mem : ∀ s ∈ family, ∀ imported ∈ s.imports, imported.2.1 ∈ family
  eq_of_path : ∀ s ∈ family, ∀ t ∈ family, s.path = t.path → s = t

theorem CacheInvariant.coherent {state : LoadState} (h : CacheInvariant state.cache) :
    Coherent state.sources where
  imports_mem s hs imported himported := by
    obtain ⟨⟨path, t⟩, hmem, rfl⟩ := List.mem_map.1 hs
    obtain ⟨i, hi⟩ := List.mem_iff_getElem?.1 hmem
    obtain ⟨j, -, hj⟩ := (h.entry i path t hi).imports_before imported himported
    exact List.mem_map.2 ⟨_, List.mem_of_getElem? hj, rfl⟩
  eq_of_path s hs t ht hpath := by
    obtain ⟨⟨p, s'⟩, hs', rfl⟩ := List.mem_map.1 hs
    obtain ⟨⟨q, t'⟩, ht', rfl⟩ := List.mem_map.1 ht
    have hp : s'.path = p := h.path_eq_of_mem hs'
    have hq : t'.path = q := h.path_eq_of_mem ht'
    obtain ⟨i, hi⟩ := List.mem_iff_getElem?.1 hs'
    obtain ⟨j, hj⟩ := List.mem_iff_getElem?.1 ht'
    have hpq : p = q := by rw [← hp, ← hq, hpath]
    subst hpq
    have hij : i = j := h.position_unique hi hj
    rw [hij, hj] at hi
    simpa using hi.symm

end DesignTokens
