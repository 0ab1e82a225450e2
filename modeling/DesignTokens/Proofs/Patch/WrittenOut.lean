/-
  DesignTokens.Proofs.Patch.WrittenOut — range paths are sugar.

  An operation with a range path stands for one edit for each text that the path expands to.  It
  can be written out instead: one operation for each of these texts, in their order, each with
  its own source.  The operations that were written out are turned into edits one by one, each
  against the document that the one before has left, and not all at once; without variables
  that makes no difference.

  An operation `StandsFor` edits when it is turned into them in all surroundings.  Operations
  that stand for one edit each run as these edits do, and running is taken apart along the list
  of operations; what is left over is the place that a failure names.

  Main facts:
    * `standsFor_fanOut` — an operation without variables stands for the same edits everywhere.
    * `writtenOut_standsFor` — and the operations that it is written out to for one each.
    * `runFrom_writtenOut` — a list of operations runs as what it is written out to.
    * `apply_writtenOut` — so does a patch, with a matrix or without.
-/
import DesignTokens.Proofs.Operation.Strings
import DesignTokens.Proofs.Pointer.Codec
import Mathlib.Data.List.Forall2

namespace DesignTokens

/-! ## §1. Paths that settle -/

theorem Variables.pointers_of_not_hasVariables (vars : Variables) {texts : List String}
    (h : ∀ text ∈ texts, hasVariables text = false) :
    vars.pointers texts = .ok (texts.map Pointer.parse) := by
  induction texts with
  | nil => rfl
  | cons text rest ih =>
    obtain ⟨htext, hrest⟩ := List.forall_mem_cons.1 h
    rw [pointers, resolve_of_not_occursIn vars htext, ih hrest]
    rfl

namespace WrittenPath

/-- The texts that the ranges of a path stand for; none if they cannot be expanded. -/
def texts (path : WrittenPath) : List String := (Range.expand path.patchText).toOption.getD []

/-- The ranges of the path expand, to texts that hold neither ranges nor variables. -/
structure Settles (path : WrittenPath) : Prop where
  expands : Range.expand path.patchText = .ok path.texts
  settled : ∀ text ∈ path.texts, Range.hasRange text = false ∧ hasVariables text = false

theorem settles_iff {path : WrittenPath} : path.Settles ↔
    (Range.expand path.patchText).toOption.isSome = true ∧
      ∀ text ∈ path.texts, Range.hasRange text = false ∧ hasVariables text = false := by
  constructor
  · rintro ⟨hexpands, hsettled⟩
    exact ⟨by rw [hexpands]; rfl, hsettled⟩
  · rintro ⟨hsome, hsettled⟩
    obtain ⟨texts, htexts⟩ := Option.isSome_iff_exists.1 hsome
    refine ⟨eq_ok_of_toOption ?_, hsettled⟩
    rw [WrittenPath.texts, htexts, Option.getD_some]

instance (path : WrittenPath) : Decidable path.Settles := decidable_of_iff' _ settles_iff

variable {path : WrittenPath} {text : String}

theorem texts_of_expand {texts : List String} (h : Range.expand path.patchText = .ok texts) :
    path.texts = texts := by
  rw [WrittenPath.texts, h]
  rfl

/-- A path that settles names the same places whatever the variables are. -/
theorem expand_of_settles (h : path.Settles) (vars : Variables) :
    path.expand vars = .ok (path.texts.map Pointer.parse) := by
  rw [expand, h.expands]
  exact vars.pointers_of_not_hasVariables fun text htext => (h.settled text htext).2

/-- The first slash of a path belongs to no mark. -/
theorem patchText_pointer_settled
    (h : Range.hasRange text = false ∧ hasVariables text = false) :
    Range.hasRange (WrittenPath.pointer text).patchText = false ∧
      hasVariables (WrittenPath.pointer text).patchText = false := by
  unfold patchText
  dsimp only
  split
  · exact h
  · exact h
  · constructor
    · have hcut : Text.cut? Range.openMark text.toList = none := by
        simpa [Range.hasRange, Text.occursIn] using h.1
      have hstart : Range.openMark.isPrefixOf? ('/' :: text.toList) = none := rfl
      simp [Range.hasRange, Text.occursIn, Text.cut?, hstart, hcut]
    · have hstart : Template.openMark.isPrefixOf ('/' :: text.toList) = false := rfl
      have hrest : Template.occursIn text.toList = false := h.2
      simp [hasVariables, Template.occursIn, hstart, hrest]

theorem texts_pointer (h : Range.hasRange text = false ∧ hasVariables text = false) :
    (WrittenPath.pointer text).texts = [(WrittenPath.pointer text).patchText] :=
  texts_of_expand (Range.expand_of_not_hasRange (patchText_pointer_settled h).1)

/-- A settled text settles as a path, and names the place that it names as a text. -/
theorem settles_pointer (h : Range.hasRange text = false ∧ hasVariables text = false) :
    (WrittenPath.pointer text).Settles where
  expands := by
    rw [texts_pointer h]
    exact Range.expand_of_not_hasRange (patchText_pointer_settled h).1
  settled := by
    rw [texts_pointer h]
    exact List.forall_mem_singleton.2 (patchText_pointer_settled h)

end WrittenPath

/-! ## §2. Operations that are written out -/

/-- Gives every target its source: the only one, or the one at the same position. -/
def withSources (sources targets : List String) : List (String × String) :=
  match sources with
  | [source] => targets.map fun target => (source, target)
  | _ => sources.zip targets

/-- The sources can be given to the targets. -/
def Fits (sources targets : List String) : Prop :=
  targets = [] ∨ sources.length = 1 ∨ sources.length = targets.length

instance (sources targets : List String) : Decidable (Fits sources targets) :=
  inferInstanceAs (Decidable (_ ∨ _ ∨ _))

theorem withSources_nil (sources : List String) : withSources sources [] = [] := by
  unfold withSources
  split
  · rfl
  · exact List.zip_nil_right

theorem mem_of_mem_withSources {sources targets : List String} {pair : String × String}
    (h : pair ∈ withSources sources targets) : pair.1 ∈ sources ∧ pair.2 ∈ targets := by
  unfold withSources at h
  split at h
  · obtain ⟨target, htarget, rfl⟩ := List.mem_map.1 h
    exact ⟨List.mem_singleton.2 rfl, htarget⟩
  · exact List.of_mem_zip h

/-- Sources and targets that fit are given to each other in this way. -/
theorem pairSources_of_fits (mode : TransferMode) {sources targets : List String}
    (hne : targets ≠ []) (h : Fits sources targets) :
    pairSources mode (sources.map Pointer.parse) (targets.map Pointer.parse)
      = .ok ((withSources sources targets).map fun pair => (.parse pair.1, .parse pair.2)) := by
  rcases h with hnil | hone | hlength
  · exact absurd hnil hne
  · obtain ⟨source, rfl⟩ := List.length_eq_one_iff.1 hone
    simp [pairSources, withSources, Function.comp_def]
  · match sources, hlength with
    | [], hlength => exact absurd (List.length_eq_zero_iff.1 hlength.symm) hne
    | [source], _ => simp [pairSources, withSources, Function.comp_def]
    | first :: second :: rest, hlength =>
      have hparsed : ((first :: second :: rest).map Pointer.parse).length
          = (targets.map Pointer.parse).length := by
        rw [List.length_map, List.length_map, hlength]
      show (if _ then _ else _) = _
      rw [if_pos hparsed, List.zip_map, withSources]
      · rfl
      · intro source hsource
        cases hsource

namespace Operation

/-- The operations that say one by one what the operation says at once. -/
def writtenOut : Operation → List Operation
  | .write mode path value strict =>
    path.texts.map fun target => .write mode (.pointer target) value strict
  | .transfer mode source path strict =>
    (withSources source.texts path.texts).map fun pair =>
      .transfer mode (.pointer pair.1) (.pointer pair.2) strict
  | .remove path strict => path.texts.map fun target => .remove (.pointer target) strict

/-- The paths of the operation settle, and its sources fit its targets. -/
def Settles : Operation → Prop
  | .write _ path _ _ | .remove path _ => path.Settles
  | .transfer _ source path _ => source.Settles ∧ path.Settles ∧ Fits source.texts path.texts

instance (op : Operation) : Decidable op.Settles :=
  match op with
  | .write _ path _ _ | .remove path _ => inferInstanceAs (Decidable path.Settles)
  | .transfer _ source path _ =>
    inferInstanceAs (Decidable (source.Settles ∧ path.Settles ∧ Fits source.texts path.texts))

/-- The edits for the texts of the operation's paths. -/
def fanOut : Operation → List Edit
  | .write mode path value strict =>
    path.texts.map fun target => .write mode (.parse target) value strict
  | .transfer mode source path strict =>
    (withSources source.texts path.texts).map fun pair =>
      .transfer mode (.parse pair.1) (.parse pair.2) strict
  | .remove path strict => path.texts.map fun target => .remove (.parse target) strict

/-- The operation stands for these edits in all surroundings. -/
structure StandsFor (op : Operation) (edits : List Edit) : Prop where
  substitute_eq : ∀ combination, op.substitute combination = .ok op
  edits_eq : ∀ vars, op.edits vars = .ok edits

/-- No string of the operation holds a variable. -/
abbrev Constant (op : Operation) : Prop := op.EveryString fun s => hasVariables s = false

variable {op : Operation}

theorem substitute_of_constant (h : op.Constant) (combination : Option Combination) :
    op.substitute combination = .ok op := by
  cases combination with
  | none => rfl
  | some c => exact mapStrings_eq_self (h.mono fun _ hs => resolve_of_not_occursIn _ hs)

theorem resolveTree_of_constant {value : Tree} (vars : Variables)
    (h : value.EveryString fun s => hasVariables s = false) : vars.resolveTree value = .ok value :=
  Tree.mapStrings_eq_self (h.mono fun _ hs => resolve_of_not_occursIn vars hs)

theorem edits_transfer_of_settles {mode : TransferMode} {source path : WrittenPath}
    {strict : Option Bool} (h : (Operation.transfer mode source path strict).Settles)
    (vars : Variables) : (Operation.transfer mode source path strict).edits vars
      = .ok (fanOut (.transfer mode source path strict)) := by
  obtain ⟨hsource, hpath, hfits⟩ := h
  have htargets := WrittenPath.expand_of_settles hpath vars
  by_cases hnil : path.texts = []
  · -- without targets there is nothing to pair
    rw [hnil] at htargets
    rw [edits_transfer_nil htargets, fanOut, hnil, withSources_nil]
    rfl
  · have hne : (path.texts.map Pointer.parse).isEmpty = false := by simpa using hnil
    rw [edits, htargets, WrittenPath.expand_of_settles hsource vars]
    simp [hne, pairSources_of_fits mode hnil hfits, fanOut, bind, Except.bind, pure, Except.pure]

/-- **An operation without variables stands for the same edits everywhere.** -/
theorem standsFor_fanOut (hconstant : op.Constant) (h : op.Settles) :
    op.StandsFor op.fanOut where
  substitute_eq := substitute_of_constant hconstant
  edits_eq := by
    intro vars
    cases op with
    | write mode path value strict =>
      rw [edits_write_of_value (resolveTree_of_constant vars hconstant.2),
        WrittenPath.expand_of_settles h vars]
      simp [fanOut, Except.map]
    | transfer mode source path strict => exact edits_transfer_of_settles h vars
    | remove path strict =>
      rw [edits, WrittenPath.expand_of_settles h vars]
      simp [fanOut, bind, Except.bind, pure, Except.pure]

/-- **Each operation that it is written out to stands for one of them.** -/
theorem writtenOut_standsFor (hconstant : op.Constant) (h : op.Settles) :
    List.Forall₂ (fun part edit => part.StandsFor [edit]) op.writtenOut op.fanOut := by
  cases op with
  | write mode path value strict =>
    refine List.forall₂_map_left_iff.2 (List.forall₂_map_right_iff.2 (List.forall₂_same.2 ?_))
    intro target htarget
    have hsettled := WrittenPath.Settles.settled h target htarget
    have hpart : (Operation.write mode (.pointer target) value strict).StandsFor _ :=
      standsFor_fanOut ⟨hsettled.2, hconstant.2⟩ (WrittenPath.settles_pointer hsettled)
    rw [fanOut, WrittenPath.texts_pointer hsettled, List.map_singleton,
      Pointer.parse_patchText] at hpart
    exact hpart
  | transfer mode source path strict =>
    obtain ⟨hsource, hpath, -⟩ := h
    refine List.forall₂_map_left_iff.2 (List.forall₂_map_right_iff.2 (List.forall₂_same.2 ?_))
    intro pair hpair
    obtain ⟨hfirst, hsecond⟩ := mem_of_mem_withSources hpair
    have hfrom := hsource.settled _ hfirst
    have hto := hpath.settled _ hsecond
    -- one source fits one target
    have hfits : Fits (WrittenPath.pointer pair.1).texts (WrittenPath.pointer pair.2).texts :=
      Or.inr (Or.inl (by rw [WrittenPath.texts_pointer hfrom, List.length_singleton]))
    have hpart : (Operation.transfer mode (.pointer pair.1) (.pointer pair.2) strict).StandsFor _ :=
      standsFor_fanOut ⟨hfrom.2, hto.2⟩
        ⟨WrittenPath.settles_pointer hfrom, WrittenPath.settles_pointer hto, hfits⟩
    rw [fanOut, WrittenPath.texts_pointer hfrom, WrittenPath.texts_pointer hto, withSources,
      List.map_singleton, List.map_singleton, Pointer.parse_patchText,
      Pointer.parse_patchText] at hpart
    exact hpart
  | remove path strict =>
    refine List.forall₂_map_left_iff.2 (List.forall₂_map_right_iff.2 (List.forall₂_same.2 ?_))
    intro target htarget
    have hsettled := WrittenPath.Settles.settled h target htarget
    have hpart : (Operation.remove (.pointer target) strict).StandsFor _ :=
      standsFor_fanOut hsettled.2 (WrittenPath.settles_pointer hsettled)
    rw [fanOut, WrittenPath.texts_pointer hsettled, List.map_singleton,
      Pointer.parse_patchText] at hpart
    exact hpart

/-! ## §3. Runs of operations that are written out -/

section Runs

variable {strict : Bool} {combination : Option Combination}

/-- An operation that stands for edits runs as they do. -/
theorem run_of_standsFor {edits : List Edit} (h : op.StandsFor edits) (doc : Tree) :
    op.run strict combination doc = (Edit.applyAll strict edits doc).mapError .edit := by
  rw [run, h.substitute_eq combination]
  show (((op.edits (Variables.ofDocument doc)).mapError OperationError.compile) >>= fun edits =>
    (Edit.applyAll strict edits doc).mapError OperationError.edit) = _
  rw [h.edits_eq]
  rfl

/-- Operations run one after the other. -/
theorem runFrom_append (first second : List Operation) (index : Nat) (doc : Tree) :
    runFrom strict combination index (first ++ second) doc
      = runFrom strict combination index first doc >>=
          runFrom strict combination (index + first.length) second := by
  induction first generalizing index doc with
  | nil => rfl
  | cons op rest ih =>
    rw [List.cons_append, runFrom, runFrom, List.length_cons]
    cases op.run strict combination doc with
    | error fault => rfl
    | ok next =>
      show runFrom strict combination (index + 1) (rest ++ second) next = _
      rw [ih, Nat.add_assoc, Nat.add_comm 1]
      rfl

end Runs

end Operation

/-- The failure without the place of the operation that failed. -/
def PatchError.unplaced : PatchError → PatchError
  | .matrix fault => .matrix fault
  | .operation _ combination fault => .operation 0 combination fault

namespace Operation

section Runs

variable {strict : Bool} {combination : Option Combination}

/-- Operations that stand for one edit each run as these edits do. -/
theorem runFrom_of_forall₂ {parts : List Operation} {edits : List Edit}
    (h : List.Forall₂ (fun part edit => part.StandsFor [edit]) parts edits) (index : Nat)
    (doc : Tree) : (runFrom strict combination index parts doc).mapError PatchError.unplaced
      = (Edit.applyAll strict edits doc).mapError fun fault =>
          .operation 0 combination (.edit fault) := by
  induction h generalizing index doc with
  | nil => rfl
  | @cons part edit parts edits hpart _ ih =>
    rw [runFrom, run_of_standsFor hpart, Edit.applyAll, Edit.applyAll]
    cases edit.apply strict doc with
    | error fault => rfl
    | ok next => exact ih (index + 1) next

/-- **A list of operations runs as what it is written out to**, but for the places that failures
    name. -/
theorem runFrom_writtenOut {operations : List Operation} (hconstant : ∀ op ∈ operations, op.Constant)
    (h : ∀ op ∈ operations, op.Settles) (index place : Nat) (doc : Tree) :
    (runFrom strict combination index (operations.flatMap writtenOut) doc).mapError
        PatchError.unplaced
      = (runFrom strict combination place operations doc).mapError PatchError.unplaced := by
  induction operations generalizing index place doc with
  | nil => rfl
  | cons op rest ih =>
    obtain ⟨hop, hrest⟩ := List.forall_mem_cons.1 hconstant
    obtain ⟨hsettles, hothers⟩ := List.forall_mem_cons.1 h
    rw [List.flatMap_cons, runFrom_append, mapError_bind,
      runFrom_of_forall₂ (writtenOut_standsFor hop hsettles), runFrom,
      run_of_standsFor (standsFor_fanOut hop hsettles)]
    cases Edit.applyAll strict op.fanOut doc with
    | error fault => rfl
    | ok next => exact ih hrest hothers _ _ next

theorem runAll_writtenOut {operations : List Operation} (hconstant : ∀ op ∈ operations, op.Constant)
    (h : ∀ op ∈ operations, op.Settles) (combinations : List Combination) (doc : Tree) :
    (runAll strict (operations.flatMap writtenOut) combinations doc).mapError PatchError.unplaced
      = (runAll strict operations combinations doc).mapError PatchError.unplaced := by
  induction combinations generalizing doc with
  | nil => rfl
  | cons c rest ih =>
    rw [runAll, runAll, mapError_bind, mapError_bind, runFrom_writtenOut hconstant h 1 1]
    exact congrArg _ (funext ih)

end Runs

end Operation

/-! ## §4. Patches that are written out -/

namespace Patch

/-- The patch with each of its operations written out. -/
def writtenOut (p : Patch) : Patch :=
  { p with operations := p.operations.flatMap Operation.writtenOut }

/-- **A range path is sugar for the operations that it is written out to.**  A patch without
    variables whose paths expand to settled texts, and whose sources fit its targets, makes of
    every document what the written-out patch makes of it, with a matrix or without; where one
    of them fails so does the other, and their failures differ at most in the place of the
    operation. -/
theorem apply_writtenOut {p : Patch} (hconstant : ∀ op ∈ p.operations, op.Constant)
    (h : ∀ op ∈ p.operations, op.Settles) (strictByDefault : Bool) (doc : Tree) :
    (p.writtenOut.apply strictByDefault doc).mapError PatchError.unplaced
      = (p.apply strictByDefault doc).mapError PatchError.unplaced := by
  have hcombinations : p.writtenOut.combinations = p.combinations := rfl
  rw [apply, apply, mapError_bind, mapError_bind, hcombinations]
  refine congrArg _ (funext fun combinations => ?_)
  cases combinations with
  | none => exact Operation.runFrom_writtenOut hconstant h 1 1 doc
  | some combinations => exact Operation.runAll_writtenOut hconstant h combinations doc

/-- A patch for two sizes.  Its second operation has three sources, and its third one no
    target. -/
def spacing : Patch :=
  { Patch.ofOperations
      [.write .add (.pointer "/space/$[[1..2]]") (.str "4px") none,
        .transfer .copy (.pointer "base/$[[1..3]]") (.segments ["gap", "$[[s..l]]"]) none,
        .transfer .move (.pointer "/base/$[[1..3]]") (.pointer "/old/$[[]]") (some true),
        .remove (.pointer "/space") none] with
    matrix := some [("size", [.text "$[[s..m]]"])] }

/-- A document with two of the sources. -/
def twoBases : Tree := .obj [("base", .obj [("1", .str "1px"), ("2", .str "2px")])]

/-- The third source is missing.  The patch fails at its second operation, and written out it
    fails at the fifth, for the same combination and with the same fault. -/
theorem apply_writtenOut_spacing :
    (∀ op ∈ spacing.operations, op.Constant) ∧ (∀ op ∈ spacing.operations, op.Settles) ∧
      spacing.apply false twoBases = .error (.operation 2 (some [("size", .str "s")])
        (.edit (.sourceMissing (.parse "/base/3")))) ∧
      spacing.writtenOut.apply false twoBases = .error (.operation 5 (some [("size", .str "s")])
        (.edit (.sourceMissing (.parse "/base/3")))) ∧
      (spacing.writtenOut.apply false twoBases).mapError PatchError.unplaced
        = (spacing.apply false twoBases).mapError PatchError.unplaced := by
  have hconstant : ∀ op ∈ spacing.operations, op.Constant := by decide +kernel
  have hsettles : ∀ op ∈ spacing.operations, op.Settles := by decide +kernel
  exact ⟨hconstant, hsettles, eq_error_of_fault? (by decide +kernel),
    eq_error_of_fault? (by decide +kernel), apply_writtenOut hconstant hsettles false twoBases⟩

end Patch

end DesignTokens
