/-
  DesignTokens.Proofs.Source.Rules — loading by rules.

  A loader asks its surroundings three things: which path a reference means, which bytes stand
  at a path, and which tree they hold.  The rules say what a load may come to when every such
  question is answered in one of several ways, and not always in the same: the surroundings
  are a set of tables, and each question is put to any of them.

  So the rules also speak about documents that change while they are loaded, and about more
  documents than any table holds; there a load may have no end, and then the rules come to
  nothing.  With a single table they come to one end for every reference, and that is what the
  loader answers.

  Main facts:
    * `loads_loadIn` — over one table, every load comes to an end.
    * `eq_loadIn_of_loads` — and it comes to no other end than the loader's answer.
-/
import DesignTokens.Source.Loader
import Mathlib.Data.Set.Defs

namespace DesignTokens

/-! ## §1. The rules -/

section Rules

variable (world : Set SourceIo) (root : DocPath)

mutual

/-- What a load may come to: the chain above it, the reference, the state before, and the
    outcome with the state after. -/
inductive Loads :
    List DocPath → String → LoadState → Except LoadError Source × LoadState → Prop
  /-- The reference may not be followed. -/
  | unlocated {chain file state io e} (hio : io ∈ world)
      (hlocate : Loader.locate ⟨io, root⟩ chain file = .error e) :
      Loads chain file state (.error e, state)
  /-- The document has been loaded before. -/
  | cached {chain file state io path source} (hio : io ∈ world)
      (hlocate : Loader.locate ⟨io, root⟩ chain file = .ok path)
      (hfind : state.find? path = some source) :
      Loads chain file state (.ok source, state)
  /-- The document cannot be read or taken apart. -/
  | unfetched {chain file state io io' path e} (hio : io ∈ world) (hio' : io' ∈ world)
      (hlocate : Loader.locate ⟨io, root⟩ chain file = .ok path)
      (hfind : state.find? path = none)
      (hfetch : Loader.fetch ⟨io', root⟩ chain path = .error e) :
      Loads chain file state (.error e, state.noteRead path)
  /-- One of its imports cannot be loaded. -/
  | unlinked {chain file state io io' path document e next} (hio : io ∈ world)
      (hio' : io' ∈ world)
      (hlocate : Loader.locate ⟨io, root⟩ chain file = .ok path)
      (hfind : state.find? path = none)
      (hfetch : Loader.fetch ⟨io', root⟩ chain path = .ok document)
      (himports : LoadsImports (chain ++ [path]) document.importSpecs (state.noteRead path)
        (.error e, next)) :
      Loads chain file state (.error e, next)
  /-- All of them can. -/
  | linked {chain file state io io' path document imports next} (hio : io ∈ world)
      (hio' : io' ∈ world)
      (hlocate : Loader.locate ⟨io, root⟩ chain file = .ok path)
      (hfind : state.find? path = none)
      (hfetch : Loader.fetch ⟨io', root⟩ chain path = .ok document)
      (himports : LoadsImports (chain ++ [path]) document.importSpecs (state.noteRead path)
        (.ok imports, next)) :
      Loads chain file state
        (.ok (Loader.sourceOf ⟨io, root⟩ file path document imports),
          next.keep path (Loader.sourceOf ⟨io, root⟩ file path document imports))

/-- What loading imports one after the other may come to. -/
inductive LoadsImports :
    List DocPath → Entries ImportSpec → LoadState →
      Except LoadError (List (String × Source × Bool)) × LoadState → Prop
  | nil {chain state} : LoadsImports chain [] state (.ok [], state)
  | headFailed {chain key spec rest state e next}
      (hhead : Loads chain spec.source state (.error e, next)) :
      LoadsImports chain ((key, spec) :: rest) state (.error e, next)
  | tailFailed {chain key spec rest state source mid e next}
      (hhead : Loads chain spec.source state (.ok source, mid))
      (htail : LoadsImports chain rest mid (.error e, next)) :
      LoadsImports chain ((key, spec) :: rest) state (.error e, next)
  | cons {chain key spec rest state source mid imports next}
      (hhead : Loads chain spec.source state (.ok source, mid))
      (htail : LoadsImports chain rest mid (.ok imports, next)) :
      LoadsImports chain ((key, spec) :: rest) state
        (.ok ((key, source, spec.build) :: imports), next)

end

end Rules

/-! ## §2. One table -/

namespace Loader

/-- The surroundings in which every question is put to the loader's own table. -/
def surroundings (l : Loader) : Set SourceIo := {io | io = l.io}

/-- **Over one table every load comes to an end**, by finitely many steps. -/
theorem loads_loadIn (l : Loader) :
    (∀ chain file state,
      Loads l.surroundings l.root chain file state (l.loadIn chain file state)) ∧
    (∀ chain specs state,
      LoadsImports l.surroundings l.root chain specs state (l.loadImports chain specs state)) := by
  have hio : l.io ∈ l.surroundings := rfl
  refine loading_induction (P := Loads l.surroundings l.root)
    (Q := LoadsImports l.surroundings l.root)
    ?unlocated ?cached ?unfetched ?unlinked ?loaded ?nil ?headFailed ?tailFailed ?cons
  case unlocated => intro chain file state e hlocate; exact .unlocated hio hlocate
  case cached => intro chain file state path source hlocate hfind; exact .cached hio hlocate hfind
  case unfetched =>
    intro chain file state path e hlocate hfind hfetch
    exact .unfetched hio hio hlocate hfind hfetch
  case unlinked =>
    intro chain file state path document e next hlocate hfind hfetch himports
    exact .unlinked hio hio hlocate hfind hfetch himports
  case loaded =>
    intro chain file state path document imports next hlocate hfind hfetch himports
    exact .linked hio hio hlocate hfind hfetch himports
  case nil => intro chain state; exact .nil
  case headFailed => intro chain state key spec rest e next hhead; exact .headFailed hhead
  case tailFailed =>
    intro chain state key spec rest source mid e next hhead htail
    exact .tailFailed hhead htail
  case cons =>
    intro chain state key spec rest source mid imports next hhead htail
    exact .cons hhead htail

mutual

/-- **Over one table a load comes to no other end than the loader's answer.** -/
theorem eq_loadIn_of_loads {l : Loader} {chain : List DocPath} {file : String}
    {state : LoadState} {r : Except LoadError Source × LoadState} :
    Loads l.surroundings l.root chain file state r → r = l.loadIn chain file state
  -- by recursion on the rules that were used; each question went to the loader's own table
  | .unlocated rfl hlocate => (loadIn_of_unlocated hlocate).symm
  | .cached rfl hlocate hfind => (loadIn_of_cached hlocate hfind).symm
  | .unfetched rfl rfl hlocate hfind hfetch => (loadIn_of_unfetched hlocate hfind hfetch).symm
  | .unlinked rfl rfl hlocate hfind hfetch himports =>
    (loadIn_of_unlinked hlocate hfind hfetch (eq_loadImports_of_loads himports).symm).symm
  | .linked rfl rfl hlocate hfind hfetch himports =>
    (loadIn_of_linked hlocate hfind hfetch (eq_loadImports_of_loads himports).symm).symm

theorem eq_loadImports_of_loads {l : Loader} {chain : List DocPath}
    {specs : Entries ImportSpec} {state : LoadState}
    {r : Except LoadError (List (String × Source × Bool)) × LoadState} :
    LoadsImports l.surroundings l.root chain specs state r →
      r = l.loadImports chain specs state
  | .nil => loadImports_nil.symm
  | .headFailed hhead => (loadImports_of_headFailed (eq_loadIn_of_loads hhead).symm).symm
  | .tailFailed hhead htail =>
    (loadImports_of_tailFailed (eq_loadIn_of_loads hhead).symm
      (eq_loadImports_of_loads htail).symm).symm
  | .cons hhead htail =>
    (loadImports_of_loaded (eq_loadIn_of_loads hhead).symm
      (eq_loadImports_of_loads htail).symm).symm

end

end Loader

end DesignTokens
