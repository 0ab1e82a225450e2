/-
  DesignTokens.Proofs.Source.Root — no reference leads out of the root.

  Every path is folded before it is looked at.  In folded steps, a step up can only come first:
  behind a name it would have taken the name away.  So a folded path that begins with the steps
  of a root, of which there is at least one and none leads up, goes on from there by names alone,
  and a loader reads no other paths.  This compares paths step by step; their texts are not
  looked at.

  Nothing is asked of the surroundings but that they answer with paths.  They may send any
  reference anywhere, and they may send it elsewhere the next time.

  Main facts:
    * `up_not_mem_of_prefix` — behind a root that leads nowhere up, a folded path does not either.
    * `below_of_within` — so a folded path inside such a root goes on by names alone.
    * `reads_of_loads` — a load reads nothing but where references may be followed to.
    * `no_root_escape` — which is below the root, and every other reference is refused before
      anything is read for it.
-/
import DesignTokens.Proofs.Source.Cache
import DesignTokens.Proofs.Source.Rules
import Mathlib.Data.Set.Operations

namespace DesignTokens

/-! ## §1. Names -/

/-- A text that can stand between two slashes and means a step down there. -/
structure IsName (text : String) : Prop where
  ne_empty : text ≠ ""
  ne_dot : text ≠ "."
  ne_dots : text ≠ ".."
  no_slash : '/' ∉ text.toList

namespace DocPath

/-- A path whose steps down are by names, as those of every path are that has a text. -/
def Proper (p : DocPath) : Prop := ∀ name, PathStep.name name ∈ p.steps → IsName name

/-- The path is made of all steps of a root, in order, and goes on by names alone. -/
def Below (p root : DocPath) : Prop :=
  p.absolute = root.absolute ∧
    ∃ names : List String, p.steps = root.steps ++ names.map PathStep.name

/-- The steps down of a path that is read from a text are by names. -/
theorem proper_parse (text : String) : (parse text).Proper := by
  intro name hname
  obtain ⟨piece, hpiece, hstep⟩ := List.mem_filterMap.1 hname
  obtain ⟨chars, hchars, rfl⟩ := List.mem_map.1 hpiece
  have hslash : '/' ∉ (String.ofList chars).toList := by
    rw [String.toList_ofList]
    exact Text.not_mem_of_mem_pieces hchars
  unfold PathStep.ofPiece? at hstep
  split at hstep
  · cases hstep
  next hblank =>
    split at hstep
    · cases hstep
    next hdots =>
      obtain rfl : String.ofList chars = name := PathStep.name.inj (Option.some.inj hstep)
      exact ⟨fun h => hblank (Or.inl h), fun h => hblank (Or.inr h), hdots, hslash⟩

/-! ## §2. Folded paths -/

/-- Folding brings no new steps. -/
theorem mem_of_mem_fold {folded : List PathStep} {step other : PathStep}
    (h : other ∈ fold folded step) : other = step ∨ other ∈ folded := by
  cases step with
  | name text => exact List.mem_cons.1 h
  | up =>
    cases folded with
    | nil => exact Or.inl (List.mem_singleton.1 h)
    | cons top rest => exact Or.inr (List.mem_cons_of_mem _ h)

theorem mem_of_mem_foldl {steps folded : List PathStep} {step : PathStep}
    (h : step ∈ steps.foldl fold folded) : step ∈ steps ∨ step ∈ folded := by
  induction steps generalizing folded with
  | nil => exact Or.inr h
  | cons next rest ih =>
    rcases ih h with hrest | hfold
    · exact Or.inl (List.mem_cons_of_mem _ hrest)
    · rcases mem_of_mem_fold hfold with rfl | hfolded
      · exact Or.inl List.mem_cons_self
      · exact Or.inr hfolded

theorem proper_normalize {p : DocPath} (h : p.Proper) : p.normalize.Proper := by
  intro name hname
  have hmem : PathStep.name name ∈ p.steps.foldl fold [] := List.mem_reverse.1 hname
  rcases mem_of_mem_foldl hmem with hsteps | hnil
  · exact h name hsteps
  · cases hnil

/-- In folded steps, which have the last one first, a step up comes last. -/
theorem getLast?_of_up_mem {folded : List PathStep} (h : Folded folded)
    (hup : PathStep.up ∈ folded) : folded.getLast? = some .up := by
  induction folded with
  | nil => cases hup
  | cons step rest ih =>
    cases rest with
    | nil =>
      rw [← List.mem_singleton.1 hup]
      rfl
    | cons next rest =>
      -- a step up has nothing behind it, so this one is a name
      cases step with
      | up => exact False.elim h
      | name text =>
        have hrest : PathStep.up ∈ next :: rest := by simpa using hup
        rw [List.getLast?_cons_cons]
        exact ih (folded_tail h) hrest

/-- **Behind steps of which none leads up, a folded path does not lead up either.** -/
theorem up_not_mem_of_prefix {p : DocPath} {front back : List PathStep} (hne : front ≠ [])
    (hup : PathStep.up ∉ front) (hsteps : p.normalize.steps = front ++ back) :
    PathStep.up ∉ p.normalize.steps := by
  intro hmem
  have hfolded : Folded (p.steps.foldl fold []) := folded_foldl p.steps trivial
  have hreverse : p.normalize.steps.reverse = p.steps.foldl fold [] := List.reverse_reverse _
  -- folding keeps the last step first, so there the step up comes last; read from the front it
  -- would be the first one, and that belongs to the steps that do not lead up
  have hhead : p.normalize.steps.head? = some .up := by
    rw [← List.getLast?_reverse, hreverse]
    exact getLast?_of_up_mem hfolded (by rw [← hreverse]; exact List.mem_reverse.2 hmem)
  cases front with
  | nil => exact hne rfl
  | cons first front =>
    rw [hsteps] at hhead
    obtain rfl : first = .up := Option.some.inj hhead
    exact hup List.mem_cons_self

/-- Steps of which none leads up are by names. -/
theorem exists_names_of_up_not_mem {steps : List PathStep} (h : PathStep.up ∉ steps) :
    ∃ names : List String, steps = names.map PathStep.name := by
  induction steps with
  | nil => exact ⟨[], rfl⟩
  | cons step rest ih =>
    obtain ⟨names, rfl⟩ := ih (fun hmem => h (List.mem_cons_of_mem _ hmem))
    cases step with
    | up => exact absurd List.mem_cons_self h
    | name text => exact ⟨text :: names, rfl⟩

/-- **A folded path inside an absolute root goes on from it by names alone**, where the root has
    a step and none leads up. -/
theorem below_of_within {p root : DocPath} (habs : root.absolute = true)
    (hne : root.steps ≠ []) (hup : PathStep.up ∉ root.steps)
    (h : p.normalize.within root = true) : p.normalize.Below root := by
  obtain ⟨habsolute, back, hback⟩ :
      p.normalize.absolute = true ∧ root.steps <+: p.normalize.steps := by
    have hstarts : p.normalize.startsWith root = true := (Bool.and_eq_true_iff.1 h).2
    unfold startsWith at hstarts
    rw [if_pos habs, Bool.and_eq_true_iff, List.isPrefixOf_iff_prefix] at hstarts
    exact hstarts
  have hnoUp : PathStep.up ∉ p.normalize.steps := up_not_mem_of_prefix hne hup hback.symm
  obtain ⟨names, rfl⟩ : ∃ names : List String, back = names.map PathStep.name :=
    exists_names_of_up_not_mem fun hmem =>
      hnoUp (by rw [← hback]; exact List.mem_append_right _ hmem)
  exact ⟨habsolute.trans habs.symm, names, hback.symm⟩

/-- And a path that goes on from an absolute root lies inside. -/
theorem within_of_below {p root : DocPath} (habs : root.absolute = true) (h : p.Below root) :
    p.within root = true := by
  obtain ⟨habsolute, names, hsteps⟩ := h
  obtain ⟨absolute, steps⟩ := p
  obtain rfl : steps = root.steps ++ names.map PathStep.name := hsteps
  obtain rfl : absolute = true := habsolute.trans habs
  exact within_append habs _

end DocPath

/-! ## §3. Reads -/

/-- What references resolve to under a root are paths. -/
def SourceIo.AnswersPaths (io : SourceIo) (root : DocPath) : Prop :=
  ∀ file path, io.resolve file root = .ok path → path.Proper

/-- The tables of documents answer with paths. -/
theorem SourceIo.answersPaths_ofFiles (files : List (DocPath × ByteArray)) {root : DocPath}
    (hroot : root.Proper) : (SourceIo.ofFiles files).AnswersPaths root := by
  intro file path hresolve
  obtain rfl : root.resolve file = path := Except.ok.inj hresolve
  refine DocPath.proper_normalize ?_
  intro name hname
  unfold DocPath.join at hname
  split at hname
  · exact DocPath.proper_parse file name hname
  · rcases List.mem_append.1 hname with hname | hname
    · exact hroot name hname
    · exact DocPath.proper_parse file name hname

/-- Something holds of all paths that have been read. -/
def LoadState.ReadsOnly (P : DocPath → Prop) (state : LoadState) : Prop :=
  ∀ path ∈ state.reads, P path

theorem LoadState.ReadsOnly.noteRead {P : DocPath → Prop} {state : LoadState}
    (h : state.ReadsOnly P) {path : DocPath} (hpath : P path) :
    (state.noteRead path).ReadsOnly P := by
  intro p hp
  rcases List.mem_append.1 hp with hp | hp
  · exact h p hp
  · rw [List.mem_singleton.1 hp]
    exact hpath

/-- Something holds of every path that a reference may be followed to. -/
def LocatesOnly (world : Set SourceIo) (root : DocPath) (P : DocPath → Prop) : Prop :=
  ∀ io ∈ world, ∀ chain file path, Loader.locate ⟨io, root⟩ chain file = .ok path → P path

mutual

/-- **A load reads nothing but where references may be followed to.** -/
theorem reads_of_loads {world : Set SourceIo} {root : DocPath} {P : DocPath → Prop}
    (hP : LocatesOnly world root P) {chain : List DocPath} {file : String} {state : LoadState}
    {r : Except LoadError Source × LoadState} (hstate : state.ReadsOnly P) :
    Loads world root chain file state r → r.2.ReadsOnly P
  | .unlocated _ _ => hstate
  | .cached _ _ _ => hstate
  | .unfetched hio _ hlocate _ _ => hstate.noteRead (hP _ hio _ _ _ hlocate)
  | .unlinked hio _ hlocate _ _ himports =>
    reads_of_loadsImports hP (hstate.noteRead (hP _ hio _ _ _ hlocate)) himports
  | .linked hio _ hlocate _ _ himports =>
    -- keeping the loaded document reads nothing
    reads_of_loadsImports hP (hstate.noteRead (hP _ hio _ _ _ hlocate)) himports

theorem reads_of_loadsImports {world : Set SourceIo} {root : DocPath} {P : DocPath → Prop}
    (hP : LocatesOnly world root P) {chain : List DocPath} {specs : Entries ImportSpec}
    {state : LoadState} {r : Except LoadError (List (String × Source × Bool)) × LoadState}
    (hstate : state.ReadsOnly P) :
    LoadsImports world root chain specs state r → r.2.ReadsOnly P
  | .nil => hstate
  | .headFailed hhead => reads_of_loads hP hstate hhead
  | .tailFailed hhead htail => by
    have hmid := reads_of_loads hP hstate hhead
    exact reads_of_loadsImports hP hmid htail
  | .cons hhead htail => by
    have hmid := reads_of_loads hP hstate hhead
    have hnext := reads_of_loadsImports hP hmid htail
    exact hnext

end

/-- The states that a loader can be in after some loads, one after the other. -/
inductive Reached (world : Set SourceIo) (root : DocPath) : LoadState → Prop
  | start : Reached world root .empty
  | load {state file r} (hstate : Reached world root state)
      (hload : Loads world root [] file state r) : Reached world root r.2

/-- So do any number of loads. -/
theorem Reached.readsOnly {world : Set SourceIo} {root : DocPath} {P : DocPath → Prop}
    (hP : LocatesOnly world root P) {state : LoadState} (h : Reached world root state) :
    state.ReadsOnly P := by
  induction h with
  | start =>
    intro path hpath
    cases hpath
  | load _ hload ih => exact reads_of_loads hP ih hload

/-- What a loader has done is among what may be done. -/
theorem Reached.loadAll {l : Loader} (files : List String) {state : LoadState}
    (h : Reached l.surroundings l.root state) :
    Reached l.surroundings l.root (l.loadAll files state) := by
  induction files generalizing state with
  | nil => exact h
  | cons file rest ih => exact ih (h.load (l.loads_loadIn.1 [] file state))

/-! ## §4. References -/

section References

variable {world : Set SourceIo} {root : DocPath} {chain : List DocPath} {file : String}

/-- Every load asks one table where the reference leads, and ends there and then, with nothing
    read, if the table sends it where it may not be followed to. -/
theorem exists_asked_of_loads {state : LoadState} {r : Except LoadError Source × LoadState}
    (h : Loads world root chain file state r) :
    ∃ io ∈ world, ∀ e, Loader.locate ⟨io, root⟩ chain file = .error e → r = (.error e, state) := by
  have hfollowed : ∀ {io : SourceIo} {path : DocPath},
      Loader.locate ⟨io, root⟩ chain file = .ok path →
      ∀ e, Loader.locate ⟨io, root⟩ chain file = .error e → r = (.error e, state) := by
    intro io path hlocate e he
    rw [hlocate] at he
    cases he
  cases h with
  | @unlocated _ _ _ io _ hio hlocate =>
    refine ⟨io, hio, ?_⟩
    intro e he
    obtain rfl := Except.error.inj (hlocate.symm.trans he)
    rfl
  | @cached _ _ _ io _ _ hio hlocate _ => exact ⟨io, hio, hfollowed hlocate⟩
  | @unfetched _ _ _ io _ _ _ hio _ hlocate _ _ => exact ⟨io, hio, hfollowed hlocate⟩
  | @unlinked _ _ _ io _ _ _ _ _ hio _ hlocate _ _ _ => exact ⟨io, hio, hfollowed hlocate⟩
  | @linked _ _ _ io _ _ _ _ _ hio _ hlocate _ _ _ => exact ⟨io, hio, hfollowed hlocate⟩

/-- References are followed only to below a root that has a step, where none leads up. -/
theorem locatesOnly_below (habs : root.absolute = true) (hne : root.steps ≠ [])
    (hup : PathStep.up ∉ root.steps) : LocatesOnly world root (·.Below root) := by
  intro io _ chain file path hlocate
  obtain ⟨resolved, -, rfl, hwithin, -⟩ := Loader.locate_ok hlocate
  exact DocPath.below_of_within habs hne hup hwithin

/-- References are followed only by names, where the surroundings answer with paths. -/
theorem locatesOnly_proper (hworld : ∀ io ∈ world, io.AnswersPaths root) :
    LocatesOnly world root DocPath.Proper := by
  intro io hio chain file path hlocate
  obtain ⟨resolved, hresolve, rfl, -⟩ := Loader.locate_ok hlocate
  exact DocPath.proper_normalize (hworld io hio file resolved hresolve)

end References

/-! ## §5. The root -/

/-- **No reference leads out of the root.**  Under an absolute root that is not the whole tree
    and does not lead up, whatever the surroundings answer and however often they change their
    minds: after any loads, whatever came of them, all that has been read are paths that begin
    with all steps of the root and go on by names.  Every other reference ends its load before
    anything is read for it, by what the surroundings said about it.

    This covers loads that do not come to an end as well.  What such a load has read up to some
    question is what it reads where the surroundings refuse to resolve that question. -/
theorem no_root_escape {root : DocPath} (habs : root.absolute = true)
    (hne : root.normalize.steps ≠ []) (hup : PathStep.up ∉ root.normalize.steps)
    (world : Set SourceIo) :
    (∀ state, Reached world root.normalize state →
      (∀ path ∈ state.reads, path.Below root.normalize) ∧
      ((∀ io ∈ world, io.AnswersPaths root.normalize) → ∀ path ∈ state.reads, path.Proper)) ∧
    (∀ chain file state r, Loads world root.normalize chain file state r → ∃ io ∈ world,
      (∀ reason, io.resolve file root.normalize = .error reason →
        r = (.error (.resolve file chain reason), state)) ∧
      (∀ path, io.resolve file root.normalize = .ok path →
        (¬ path.normalize.Below root.normalize →
          r = (.error (.outsideRoot path.normalize root.normalize chain), state)) ∧
        (path.normalize ∈ chain → path.normalize.Below root.normalize →
          r = (.error (.circularImport (chain ++ [path.normalize])), state)))) ∧
    (∀ io files, ∀ path ∈ ((Loader.mk io root.normalize).loadAll files .empty).reads,
      path.Below root.normalize) := by
  have hbelow : ∀ world, LocatesOnly world root.normalize (·.Below root.normalize) :=
    fun world => locatesOnly_below habs hne hup
  refine ⟨?_, ?_, ?_⟩
  -- what has been read, over the whole world
  · intro state hreached
    exact ⟨hreached.readsOnly (hbelow world),
      fun hworld => hreached.readsOnly (locatesOnly_proper hworld)⟩
  -- what is refused, by the table that was asked about the reference
  · intro chain file state r hload
    obtain ⟨io, hio, hrefused⟩ := exists_asked_of_loads hload
    refine ⟨io, hio, ?_, ?_⟩
    · intro reason hreason
      exact hrefused _ (Loader.locate_of_unresolved hreason)
    · intro path hpath
      refine ⟨?_, ?_⟩
      · intro hout
        have hwithin : path.normalize.within root.normalize = false := by
          rw [Bool.eq_false_iff]
          exact fun hwithin => hout (DocPath.below_of_within habs hne hup hwithin)
        exact hrefused _ (Loader.locate_of_outside hpath hwithin)
      · intro hmet hin
        exact hrefused _ (Loader.locate_of_met hpath (DocPath.within_of_below habs hin) hmet)
  -- the loader itself, whose world is its own table
  · intro io files
    have hreached : Reached (Loader.mk io root.normalize).surroundings root.normalize
        ((Loader.mk io root.normalize).loadAll files .empty) :=
      Reached.loadAll files .start
    exact hreached.readsOnly (hbelow _)

/-- Under the root of the tokens, tables of documents are read below it only, even if there is
    another table for every question, and a reference to its neighbour is refused. -/
theorem no_root_escape_tokens :
    (DocPath.parse "/tokens").absolute = true ∧
    (DocPath.parse "/tokens").normalize.steps ≠ [] ∧
    PathStep.up ∉ (DocPath.parse "/tokens").normalize.steps ∧
    (∀ state, Reached (Set.range SourceIo.ofFiles) (DocPath.parse "/tokens").normalize state →
      ∀ path ∈ state.reads,
        path.Below (DocPath.parse "/tokens").normalize ∧ path.Proper) ∧
    ∀ r, Loads (Set.range SourceIo.ofFiles) (DocPath.parse "/tokens").normalize []
        "../secret.json" .empty r →
      r = (.error (.outsideRoot ⟨true, [.name "secret.json"]⟩ ⟨true, [.name "tokens"]⟩ []),
        .empty) := by
  have habs : (DocPath.parse "/tokens").absolute = true := by decide +kernel
  have hsteps : (DocPath.parse "/tokens").normalize = ⟨true, [.name "tokens"]⟩ := by
    decide +kernel
  have hne : (DocPath.parse "/tokens").normalize.steps ≠ [] := by simp [hsteps]
  have hup : PathStep.up ∉ (DocPath.parse "/tokens").normalize.steps := by simp [hsteps]
  have hworld : ∀ io ∈ Set.range SourceIo.ofFiles,
      io.AnswersPaths (DocPath.parse "/tokens").normalize := by
    rintro io ⟨files, rfl⟩
    exact SourceIo.answersPaths_ofFiles files (DocPath.proper_normalize (DocPath.proper_parse _))
  obtain ⟨hreads, hrefused, -⟩ := no_root_escape habs hne hup (Set.range SourceIo.ofFiles)
  refine ⟨habs, hne, hup, ?_, ?_⟩
  · intro state hreached path hpath
    exact ⟨(hreads state hreached).1 path hpath, (hreads state hreached).2 hworld path hpath⟩
  · intro r hload
    obtain ⟨io, ⟨files, rfl⟩, -, hpaths⟩ := hrefused [] "../secret.json" .empty r hload
    have hsecret : ((DocPath.parse "/tokens").normalize.resolve "../secret.json").normalize
        = ⟨true, [.name "secret.json"]⟩ := by decide +kernel
    have hout : ¬ DocPath.Below ⟨true, [.name "secret.json"]⟩ ⟨true, [.name "tokens"]⟩ := by
      rintro ⟨-, names, hnames⟩
      simp at hnames
    have hr := (hpaths _ rfl).1
    rw [hsecret, hsteps] at hr
    exact hr hout

end DesignTokens
