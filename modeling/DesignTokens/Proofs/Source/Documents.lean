/-
  DesignTokens.Proofs.Source.Documents — what the documents of a loader hold.

  The way to understand documents is a parameter of a loader.  All that is asked of it is that
  it reads objects as maps: no object that it reads writes a key twice.  Then the data of every
  document that has been loaded is an object with distinct keys, and so are the values that its
  patches write; and no two imports of it are declared under one key.

  Main facts:
    * `makes_split` — what a document is taken apart into.
    * `sound_of_mem_sources` — what every loaded document holds.
-/
import DesignTokens.Proofs.Directive.Values
import DesignTokens.Proofs.Source.Cache

namespace DesignTokens

open DesignTokens.Tree (distinct_obj_iff distinct_erase distinct_of_get?)

/-- Objects are read as maps.  The formats of this library do so (`readsMaps_ofFiles`). -/
def SourceIo.ReadsMaps (io : SourceIo) : Prop :=
  ∀ bytes path, Makes (io.parse bytes path) Tree.Distinct

/-! ## §1. Documents -/

/-- What holds of a document that has been taken apart. -/
structure Document.Sound (d : Document) : Prop where
  data : d.data.IsDocument
  directives : ∀ directives ∈ d.directives, Directive.Sound directives

/-- The data of a document is an object, from which the directives have been removed. -/
theorem Document.makes_split {t : Tree} (ht : t.Distinct) : Makes (split t) Sound := by
  unfold split
  split
  · next fields =>
    split
    · exact Makes.ok ⟨⟨rfl, ht⟩, fun directives hnone => nomatch hnone⟩
    · next entry hentry =>
      split
      · exact Makes.error _ _
      · next d hd =>
        refine Makes.ok ⟨⟨rfl, distinct_erase ht buildKey⟩, fun directives hsome => ?_⟩
        obtain rfl : d = directives := Option.some.inj hsome
        exact Directive.makes_decode (distinct_of_get? ht hentry) d hd
  · exact Makes.error _ _

/-! ## §2. Sources -/

namespace Source

/-- The patches that a document declares. -/
def patches (s : Source) : List Patch := (s.directives.map (·.patches)).getD []

/-- What holds of a document that has been loaded. -/
structure Sound (s : Source) : Prop where
  data : s.data.IsDocument
  patches : ∀ p ∈ s.patches, p.Distinct
  declared : (Entries.keys s.declaredLinks).Nodup

end Source

namespace Loader

variable {l : Loader} (hmaps : l.io.ReadsMaps)

include hmaps

theorem makes_fetch (chain : List DocPath) (path : DocPath) :
    Makes (l.fetch chain path) Document.Sound := by
  unfold fetch
  split
  · exact Makes.error _ _
  · next bytes _ =>
    split
    · exact Makes.error _ _
    · next raw hraw => exact (Document.makes_split (hmaps bytes path raw hraw)).mapError _

theorem sound_sourceOf {chain : List DocPath} {path : DocPath} {document : Document}
    (hfetch : l.fetch chain path = .ok document) (file : String)
    (imports : List (String × Source × Bool)) : (l.sourceOf file path document imports).Sound := by
  have hsound : document.Sound := makes_fetch hmaps chain path document hfetch
  obtain ⟨data, directives⟩ := document
  cases directives with
  | none => exact ⟨hsound.data, fun p hp => absurd hp List.not_mem_nil, List.nodup_nil⟩
  | some directives =>
    have hdirectives : Directive.Sound directives := hsound.directives directives rfl
    refine ⟨hsound.data, hdirectives.patches, ?_⟩
    show (Entries.keys (directives.imports.map _)).Nodup
    rw [Entries.keys, List.map_map]
    exact hdirectives.imports

/-- A load keeps it so, whatever comes of it. -/
theorem sound_loading :
    (∀ chain file state, (∀ s ∈ state.sources, s.Sound) →
      ∀ s ∈ (l.loadIn chain file state).2.sources, s.Sound) ∧
    (∀ chain specs state, (∀ s ∈ state.sources, s.Sound) →
      ∀ s ∈ (l.loadImports chain specs state).2.sources, s.Sound) := by
  refine loading_induction
    (P := fun _ _ state r => (∀ s ∈ state.sources, s.Sound) → ∀ s ∈ r.2.sources, s.Sound)
    (Q := fun _ _ state r => (∀ s ∈ state.sources, s.Sound) → ∀ s ∈ r.2.sources, s.Sound)
    ?unlocated ?cached ?unfetched ?unlinked ?loaded ?nil ?headFailed ?tailFailed ?cons
  case unlocated => exact fun _ _ _ _ _ h => h
  case cached => exact fun _ _ _ _ _ _ _ h => h
  case unfetched => exact fun _ _ _ _ _ _ _ _ h => h
  case unlinked => exact fun _ _ _ _ _ _ _ _ _ _ ih h => ih h
  case loaded =>
    intro chain file state path document imports next _ _ hfetch ih h s hs
    obtain ⟨entry, hentry, rfl⟩ := List.mem_map.1 hs
    rcases Entries.mem_put hentry with rfl | hold
    · exact sound_sourceOf hmaps hfetch file imports
    · exact ih h entry.2 (List.mem_map.2 ⟨entry, hold, rfl⟩)
  case nil => exact fun _ _ h => h
  case headFailed => exact fun _ _ _ _ _ _ _ ih h => ih h
  case tailFailed => exact fun _ _ _ _ _ _ _ _ _ ih₁ ih₂ h => ih₂ (ih₁ h)
  case cons => exact fun _ _ _ _ _ _ _ _ _ ih₁ ih₂ h => ih₂ (ih₁ h)

/-- **What every loaded document holds**, after any number of loads. -/
theorem sound_of_mem_sources (files : List String) :
    ∀ s ∈ (l.loadAll files .empty).sources, s.Sound := by
  have hloads : ∀ (state : LoadState), (∀ s ∈ state.sources, s.Sound) →
      ∀ s ∈ (l.loadAll files state).sources, s.Sound := by
    induction files with
    | nil => exact fun state h => h
    | cons file rest ih =>
      exact fun state h => ih _ ((sound_loading hmaps).1 [] file state h)
  exact hloads .empty fun s hs => nomatch hs

end Loader

end DesignTokens
