/-
  DesignTokens.Directive.Basic — what a document says about its own build.

  The directives of a document name the documents it imports, the patches that are made to it,
  and the part of it that is exported.  A patch is a list of operations, which may be repeated
  over a matrix of values.  Operations differ from edits in that their paths and values may
  still hold ranges and variables.
-/
import DesignTokens.Edit.Basic

namespace DesignTokens

/-! ## §1. Imports -/

/-- One import: a file that is built, or a file with the choice to take it as it is. -/
inductive ImportSpec where
  | file (source : String)
  | detailed (source : String) (build : Bool)
deriving Repr, DecidableEq, Inhabited

/-- The file that is imported. -/
def ImportSpec.source : ImportSpec → String
  | .file source | .detailed source _ => source

/-- Whether the imported document is built. -/
def ImportSpec.build : ImportSpec → Bool
  | .file _ => true
  | .detailed _ build => build

/-! ## §2. Operations -/

/-- One change of a document, as it is written. -/
inductive Operation where
  | write (mode : WriteMode) (path : WrittenPath) (value : Tree) (strict : Option Bool)
  | transfer (mode : TransferMode) (source path : WrittenPath) (strict : Option Bool)
  | remove (path : WrittenPath) (strict : Option Bool)
deriving Repr, DecidableEq, Inhabited

namespace Operation

/-- The name of the operation's mode. -/
def modeName : Operation → String
  | .write mode .. => mode.name
  | .transfer mode .. => mode.name
  | .remove .. => "remove"

/-- The places that the operation changes. -/
def path : Operation → WrittenPath
  | .write _ path _ _ | .transfer _ _ path _ | .remove path _ => path

/-- What the operation says about its own strictness. -/
def strict : Operation → Option Bool
  | .write _ _ _ strict | .transfer _ _ _ strict | .remove _ strict => strict

/-- The operation with its own strictness. -/
def withStrict (strict : Bool) : Operation → Operation
  | .write mode path value _ => .write mode path value (some strict)
  | .transfer mode source path _ => .transfer mode source path (some strict)
  | .remove path _ => .remove path (some strict)

end Operation

/-! ## §3. Patches -/

/-- A value of a matrix.  A text may hold ranges. -/
inductive MatrixValue where
  | number (value : Number)
  | text (value : String)
deriving Repr, DecidableEq, Inhabited

/-- A group of operations, maybe repeated over a matrix. -/
structure Patch where
  name : Option String
  strict : Option Bool
  matrix : Option (Entries (List MatrixValue))
  operations : List Operation
deriving Repr, DecidableEq, Inhabited

namespace Patch

/-- The patch with nothing but operations. -/
def ofOperations (operations : List Operation) : Patch :=
  { name := none, strict := none, matrix := none, operations }

/-- The patch with a name. -/
def named (p : Patch) (name : String) : Patch := { p with name := some name }

/-- The patch with its own strictness. -/
def withStrict (p : Patch) (strict : Bool) : Patch := { p with strict := some strict }

/-- The patch with one more key of its matrix, or with new values of a key that it has. -/
def withMatrix (p : Patch) (key : String) (values : List MatrixValue) : Patch :=
  { p with matrix := some (Entries.put key values (p.matrix.getD [])) }

end Patch

/-! ## §4. Exports and directives -/

/-- The patterns that select the exported part of a document. -/
structure ExportPatterns where
  included : List String
  excluded : List String
deriving Repr, DecidableEq, Inhabited

/-- The directives of a document. -/
structure Directives where
  imports : Entries ImportSpec
  patches : List Patch
  exports : Option ExportPatterns
deriving Repr, DecidableEq, Inhabited

/-- The directives that ask for nothing. -/
def Directives.empty : Directives := { imports := [], patches := [], exports := none }

end DesignTokens
