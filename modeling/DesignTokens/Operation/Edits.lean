/-
  DesignTokens.Operation.Edits — the edits that an operation stands for.

  A path is first expanded over its ranges; then the variables of every result are resolved, and
  each text that comes out names one place.  Values have variables only.  A copy or move takes
  one source for all of its targets, or as many sources as it has targets.  An operation whose
  path expands to nothing stands for no edits.

  Main facts:
    * `edits_transfer_nil` — without targets the sources are not looked at.
-/
import DesignTokens.Directive.Basic
import DesignTokens.Range.Expand
import DesignTokens.Template.Resolve

namespace DesignTokens

/-! ## §1. Failures -/

/-- Why an operation stands for no edits. -/
inductive CompileError where
  | range (fault : Range.RangeError)
  | variable (fault : VariableError)
  /-- The numbers of sources and targets do not fit. -/
  | arity (mode : TransferMode) (targets sources : List Pointer)
deriving Repr, DecidableEq

/-- Paths with commas between them. -/
def CompileError.pathList (paths : List Pointer) : String :=
  ", ".intercalate (paths.map Pointer.text)

/-- The text of a failure. -/
def CompileError.message : CompileError → String
  | .range fault => fault.message
  | .variable fault => fault.message
  | .arity mode targets sources =>
    "`" ++ mode.name ++ "` expands to " ++ toString targets.length ++ " target paths but "
      ++ toString sources.length ++ " source paths (path: [" ++ pathList targets ++ "], from: ["
      ++ pathList sources ++ "])"

/-! ## §2. Paths -/

/-- The places that texts name once their variables are resolved. -/
def Variables.pointers (vars : Variables) : List String → Except CompileError (List Pointer)
  | [] => .ok []
  | text :: rest => do
    let resolved ← (vars.resolve text).mapError .variable
    let others ← vars.pointers rest
    return Pointer.parse resolved :: others

/-- The places that a written path stands for. -/
def WrittenPath.expand (path : WrittenPath) (vars : Variables) :
    Except CompileError (List Pointer) := do
  let texts ← (Range.expand path.patchText).mapError .range
  vars.pointers texts

/-! ## §3. Operations -/

/-- Gives every target its source. -/
def pairSources (mode : TransferMode) (sources targets : List Pointer) :
    Except CompileError (List (Pointer × Pointer)) :=
  match sources with
  | [source] => .ok (targets.map fun target => (source, target))
  | _ =>
    if sources.length = targets.length then .ok (sources.zip targets)
    else .error (.arity mode targets sources)

/-- The edits that an operation stands for. -/
def Operation.edits (vars : Variables) : Operation → Except CompileError (List Edit)
  | .write mode path value strict => do
    let value ← (vars.resolveTree value).mapError .variable
    let targets ← path.expand vars
    return targets.map fun target => .write mode target value strict
  | .transfer mode source path strict => do
    let targets ← path.expand vars
    if targets.isEmpty then return []
    else
      let sources ← source.expand vars
      let pairs ← pairSources mode sources targets
      return pairs.map fun (source, target) => .transfer mode source target strict
  | .remove path strict => do
    let targets ← path.expand vars
    return targets.map fun target => .remove target strict

/-- Without targets the sources are not looked at. -/
theorem edits_transfer_nil {vars : Variables} {mode : TransferMode} {source path : WrittenPath}
    {strict : Option Bool} (h : path.expand vars = .ok []) :
    (Operation.transfer mode source path strict).edits vars = .ok [] := by
  simp [Operation.edits, h, bind, Except.bind, pure, Except.pure]

end DesignTokens
