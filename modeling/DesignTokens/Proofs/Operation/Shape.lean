/-
  DesignTokens.Proofs.Operation.Shape — operations turn documents into documents.

  The values of an operation go through two rounds of changes to their strings, for the
  combination and for the document, and their keys stay as they are.  So the edits that an
  operation stands for write values with distinct keys when the operation does.

  Main facts:
    * `makes_run` — an operation turns a document into a document, for every combination.
-/
import DesignTokens.Patch.Apply
import DesignTokens.Proofs.Edit.Shape

namespace DesignTokens

open DesignTokens.Tree (IsDocument makes_mapStrings)

/-! ## §1. Operations -/

namespace Operation

/-- The value that the operation writes, if it has one, has distinct keys. -/
def Distinct : Operation → Prop
  | .write _ _ value _ => value.Distinct
  | .transfer .. | .remove .. => True

variable {op : Operation}

theorem makes_substitute (hop : op.Distinct) (combination : Option Combination) :
    Makes (op.substitute combination) Distinct := by
  unfold substitute
  cases combination with
  | none => exact Makes.ok hop
  | some c =>
    cases op with
    | write mode path value strict =>
      refine (Makes.trivial _).bind fun path _ => ?_
      exact (makes_mapStrings value hop).bind fun value hvalue => Makes.ok hvalue
    | transfer mode source path strict =>
      refine (Makes.trivial _).bind fun source _ => (Makes.trivial _).bind fun path _ => ?_
      exact Makes.ok True.intro
    | remove path strict => exact (Makes.trivial _).bind fun path _ => Makes.ok True.intro

theorem makes_edits (hop : op.Distinct) (vars : Variables) :
    Makes (op.edits vars) fun edits => ∀ edit ∈ edits, edit.Distinct := by
  cases op with
  | write mode path value strict =>
    refine ((makes_mapStrings value hop).mapError _).bind fun value hvalue => ?_
    refine (Makes.trivial _).bind fun targets _ => Makes.ok fun edit hedit => ?_
    obtain ⟨target, -, rfl⟩ := List.mem_map.1 hedit
    exact hvalue
  | transfer mode source path strict =>
    refine (Makes.trivial _).bind fun targets _ => ?_
    split
    · exact Makes.ok fun edit hedit => nomatch hedit
    · refine (Makes.trivial _).bind fun sources _ => (Makes.trivial _).bind fun pairs _ => ?_
      refine Makes.ok fun edit hedit => ?_
      obtain ⟨pair, -, rfl⟩ := List.mem_map.1 hedit
      exact True.intro
  | remove path strict =>
    refine (Makes.trivial _).bind fun targets _ => Makes.ok fun edit hedit => ?_
    obtain ⟨target, -, rfl⟩ := List.mem_map.1 hedit
    exact True.intro

variable {strict : Bool} {doc : Tree}

/-- **An operation turns a document into a document**, for every combination. -/
theorem makes_run (hop : op.Distinct) (hdoc : doc.IsDocument)
    (combination : Option Combination) : Makes (op.run strict combination doc) IsDocument := by
  unfold run
  refine ((makes_substitute hop combination).mapError _).bind fun op hop => ?_
  refine ((makes_edits hop _).mapError _).bind fun edits hedits => ?_
  exact (Edit.makes_applyAll hedits hdoc).mapError _

end Operation

end DesignTokens
