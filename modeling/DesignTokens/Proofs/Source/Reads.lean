/-
  DesignTokens.Proofs.Source.Reads — a load depends on what it reads.

  Two tables of documents may differ wherever they like.  As long as a load reads the same bytes
  from both, it comes to the same end: the same answer, and the same state.

  Main facts:
    * `follows_loading` — a load below any chain, after any history, follows what it reads.
    * `load_eq_of_reads` — loads over tables that agree on what is read.
-/
import DesignTokens.Source.Loader

namespace DesignTokens.Loader

/-- A loader that has other documents, but resolves and understands them alike. -/
structure Alike (l other : Loader) : Prop where
  root : other.root = l.root
  resolve : other.io.resolve = l.io.resolve
  parse : other.io.parse = l.io.parse

namespace Alike

variable {l other : Loader} (h : Alike l other)

include h

theorem locate (chain : List DocPath) (file : String) :
    other.locate chain file = l.locate chain file := by
  unfold Loader.locate
  rw [h.root, h.resolve]

theorem fetch (chain : List DocPath) {path : DocPath}
    (hread : other.io.read path = l.io.read path) :
    other.fetch chain path = l.fetch chain path := by
  unfold Loader.fetch
  rw [hread, h.parse]

theorem sourceOf (file : String) (path : DocPath) (document : Document)
    (imports : List (String × Source × Bool)) :
    other.sourceOf file path document imports = l.sourceOf file path document imports := by
  unfold Loader.sourceOf
  rw [h.root]

end Alike

/-- The tables of two loaders have the same bytes for all that has been read. -/
def AgreeOn (l other : Loader) (state : LoadState) : Prop :=
  ∀ path ∈ state.reads, other.io.read path = l.io.read path

/-- What has been read before has been read. -/
theorem AgreeOn.before {l other : Loader} {mid next : LoadState} (h : AgreeOn l other next)
    (hreads : mid.reads <+: next.reads) : AgreeOn l other mid :=
  fun path hpath => h path (hreads.subset hpath)

section Reads

variable {l other : Loader} {state next : LoadState} {path : DocPath}

theorem prefix_noteRead (state : LoadState) (path : DocPath) :
    state.reads <+: (state.noteRead path).reads :=
  List.prefix_append state.reads [path]

/-- The document that was just read is among those on which the tables agree. -/
theorem AgreeOn.read (h : AgreeOn l other next)
    (hreads : (state.noteRead path).reads <+: next.reads) :
    other.io.read path = l.io.read path := by
  have hmem : path ∈ (state.noteRead path).reads :=
    List.mem_append_right state.reads (List.mem_singleton_self path)
  exact h path (hreads.subset hmem)

end Reads

/-- **A load follows what it reads**: what was read before stays noted, and over another table
    that agrees on all that was read, the load is the same. -/
theorem follows_loading {l other : Loader} (h : Alike l other) :
    (∀ chain file state, state.reads <+: (l.loadIn chain file state).2.reads ∧
      (AgreeOn l other (l.loadIn chain file state).2 →
        other.loadIn chain file state = l.loadIn chain file state)) ∧
    (∀ chain specs state, state.reads <+: (l.loadImports chain specs state).2.reads ∧
      (AgreeOn l other (l.loadImports chain specs state).2 →
        other.loadImports chain specs state = l.loadImports chain specs state)) := by
  refine loading_induction
    (P := fun chain file state r => state.reads <+: r.2.reads ∧
      (AgreeOn l other r.2 → other.loadIn chain file state = r))
    (Q := fun chain specs state r => state.reads <+: r.2.reads ∧
      (AgreeOn l other r.2 → other.loadImports chain specs state = r))
    ?unlocated ?cached ?unfetched ?unlinked ?loaded ?nil ?headFailed ?tailFailed ?cons
  case unlocated =>
    intro chain file state e hlocate
    refine ⟨List.prefix_rfl, fun _ => ?_⟩
    exact loadIn_of_unlocated ((h.locate chain file).trans hlocate)
  case cached =>
    intro chain file state path source hlocate hfind
    refine ⟨List.prefix_rfl, fun _ => ?_⟩
    exact loadIn_of_cached ((h.locate chain file).trans hlocate) hfind
  case unfetched =>
    intro chain file state path e hlocate hfind hfetch
    refine ⟨prefix_noteRead state path, fun hagree => ?_⟩
    have hread : other.io.read path = l.io.read path := hagree.read List.prefix_rfl
    exact loadIn_of_unfetched ((h.locate chain file).trans hlocate) hfind
      ((h.fetch chain hread).trans hfetch)
  case unlinked =>
    intro chain file state path document e next hlocate hfind hfetch ⟨hreads, himports⟩
    refine ⟨(prefix_noteRead state path).trans hreads, fun hagree => ?_⟩
    have hread : other.io.read path = l.io.read path := hagree.read hreads
    exact loadIn_of_unlinked ((h.locate chain file).trans hlocate) hfind
      ((h.fetch chain hread).trans hfetch) (himports hagree)
  case loaded =>
    intro chain file state path document imports next hlocate hfind hfetch ⟨hreads, himports⟩
    refine ⟨(prefix_noteRead state path).trans hreads, fun hagree => ?_⟩
    -- keeping the document reads nothing
    have hnext : AgreeOn l other next := hagree
    have hread : other.io.read path = l.io.read path := hnext.read hreads
    rw [← h.sourceOf file path document imports]
    exact loadIn_of_linked ((h.locate chain file).trans hlocate) hfind
      ((h.fetch chain hread).trans hfetch) (himports hnext)
  case nil =>
    intro chain state
    exact ⟨List.prefix_rfl, fun _ => loadImports_nil⟩
  case headFailed =>
    intro chain state key spec rest e next ⟨hreads, hhead⟩
    exact ⟨hreads, fun hagree => loadImports_of_headFailed (hhead hagree)⟩
  case tailFailed =>
    intro chain state key spec rest source mid e next ⟨hreads₁, hhead⟩ ⟨hreads₂, htail⟩
    refine ⟨hreads₁.trans hreads₂, fun hagree => ?_⟩
    exact loadImports_of_tailFailed (hhead (hagree.before hreads₂)) (htail hagree)
  case cons =>
    intro chain state key spec rest source mid imports next ⟨hreads₁, hhead⟩ ⟨hreads₂, htail⟩
    refine ⟨hreads₁.trans hreads₂, fun hagree => ?_⟩
    exact loadImports_of_loaded (hhead (hagree.before hreads₂)) (htail hagree)

/-- A load over another table is the same, if the tables agree on what it reads. -/
theorem load_eq_of_reads {l other : Loader} (h : Alike l other) {file : String}
    {state : LoadState} (hagree : AgreeOn l other (l.load file state).2) :
    other.load file state = l.load file state :=
  ((follows_loading h).1 [] file state).2 hagree

end DesignTokens.Loader
