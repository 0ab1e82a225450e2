/-
  DesignTokens.Patch.Apply — what a patch makes of a document.

  Without a matrix the operations run once; with one they run for every combination in turn.
  Each operation first takes the values of its combination, and is then turned into edits
  against the document as it stands at that moment.  The strictness of an operation goes before
  that of its patch, which goes before the default.
-/
import DesignTokens.Edit.Apply
import DesignTokens.Operation.Edits
import DesignTokens.Patch.Matrix

namespace DesignTokens

/-! ## §1. The strings of operations -/

/-- The strings of a list, changed one after the other. -/
def mapStringList {ε : Type} (f : String → Except ε String) :
    List String → Except ε (List String)
  | [] => .ok []
  | s :: rest => do
    let s ← f s
    let others ← mapStringList f rest
    return s :: others

/-- The path with its text, or each of its segments, changed. -/
def WrittenPath.mapStrings {ε : Type} (f : String → Except ε String) :
    WrittenPath → Except ε WrittenPath
  | .pointer text => (f text).map .pointer
  | .segments names => (mapStringList f names).map .segments

/-- The operation with all its strings changed: sources, paths and the strings of values, in
    that order. -/
def Operation.mapStrings {ε : Type} (f : String → Except ε String) :
    Operation → Except ε Operation
  | .write mode path value strict => do
    let path ← path.mapStrings f
    let value ← value.mapStrings f
    return .write mode path value strict
  | .transfer mode source path strict => do
    let source ← source.mapStrings f
    let path ← path.mapStrings f
    return .transfer mode source path strict
  | .remove path strict => do
    let path ← path.mapStrings f
    return .remove path strict

/-! ## §2. Failures -/

/-- Why an operation cannot be run. -/
inductive OperationError where
  | matrix (fault : VariableError)
  | compile (fault : CompileError)
  | edit (fault : EditError)
deriving Repr, DecidableEq

/-- The text of a failure. -/
def OperationError.message : OperationError → String
  | .matrix fault => fault.message
  | .compile fault => fault.message
  | .edit fault => fault.message

/-- Why a patch cannot be applied. -/
inductive PatchError where
  | matrix (fault : Matrix.MatrixError)
  /-- The operation at a place, counted from one, failed for a combination. -/
  | operation (index : Nat) (combination : Option Combination) (fault : OperationError)
deriving Repr, DecidableEq

/-- The text of a failure. -/
def PatchError.message : PatchError → String
  | .matrix (.values key _) => "invalid values for matrix key `" ++ key ++ "`"
  | .matrix .tooLarge =>
    "matrix expands to more than " ++ toString Range.maxExpansion ++ " combinations"
  | .operation index none _ => "operation " ++ toString index ++ " failed"
  | .operation index (some combination) _ =>
    "operation " ++ toString index ++ " failed for matrix combination (" ++ combination.text ++ ")"

/-- The texts of what lies behind a failure. -/
def PatchError.causes : PatchError → List String
  | .matrix (.values _ fault) => [fault.message]
  | .matrix .tooLarge => []
  | .operation _ _ fault => [fault.message]

/-! ## §3. Running -/

/-- The operation with the values of a combination. -/
def Operation.substitute (combination : Option Combination) (op : Operation) :
    Except VariableError Operation :=
  match combination with
  | none => .ok op
  | some c => op.mapStrings (Variables.ofCombination c).resolve

/-- Runs an operation on a document. -/
def Operation.run (strict : Bool) (combination : Option Combination) (op : Operation)
    (doc : Tree) : Except OperationError Tree := do
  let op ← (op.substitute combination).mapError .matrix
  let edits ← (op.edits (Variables.ofDocument doc)).mapError .compile
  (Edit.applyAll strict edits doc).mapError .edit

/-- Runs operations one after the other; `index` is the place of the first. -/
def Operation.runFrom (strict : Bool) (combination : Option Combination) (index : Nat) :
    List Operation → Tree → Except PatchError Tree
  | [], doc => .ok doc
  | op :: rest, doc => do
    let doc ← (op.run strict combination doc).mapError (.operation index combination)
    runFrom strict combination (index + 1) rest doc

/-- Runs operations for each of several combinations in turn. -/
def Operation.runAll (strict : Bool) (operations : List Operation) :
    List Combination → Tree → Except PatchError Tree
  | [], doc => .ok doc
  | c :: rest, doc => do
    let doc ← runFrom strict (some c) 1 operations doc
    runAll strict operations rest doc

namespace Patch

/-- The combinations that the patch runs for, or nothing when it runs once. -/
def combinations (p : Patch) : Except Matrix.MatrixError (Option (List Combination)) :=
  match p.matrix with
  | none => .ok none
  | some matrix => Matrix.combinations matrix

/-- Applies the patch to a document. -/
def apply (strictByDefault : Bool) (p : Patch) (doc : Tree) : Except PatchError Tree := do
  let strict := p.strict.getD strictByDefault
  match ← p.combinations.mapError .matrix with
  | none => Operation.runFrom strict none 1 p.operations doc
  | some combinations => Operation.runAll strict p.operations combinations doc

end Patch

end DesignTokens
