/-
  DesignTokens.Directive.Decode — reading directives from a tree.

  A record is an object with known fields, or the list of its fields in their declared order.
  Fields are read in the order in which they are written and the first fault wins; fields that
  are missing are reported after that, in declared order.  Directives and patches refuse unknown
  fields, everything else skips them.  An operation names its mode in the field `op`, which is
  looked up first wherever it stands.

  Where a value may have several forms (an import, a path, a matrix value, patterns), every fault
  inside of it has the same report: that no form fits.
-/
import DesignTokens.Directive.Basic
import DesignTokens.Text.Quoted

namespace DesignTokens

/-! ## §1. Faults -/

/-- What a place of the directives asks for. -/
inductive Wanted where
  | directives
  | patch
  | operation
  | operationName
  | map
  | sequence
  | string
  | boolean
deriving Repr, DecidableEq

/-- The values that come in several forms. -/
inductive Formed where
  | importSpec
  | matrixValue
  | path
  | patterns
deriving Repr, DecidableEq

/-- What is wrong with the length of a record that is written as a list. -/
inductive Arity where
  /-- A patch has four fields. -/
  | patchFields
  /-- An operation of the named mode has `count` fields. -/
  | operationFields (mode : String) (count : Nat)
  /-- The list goes on behind the last field. -/
  | fewerItems
  /-- The list of an operation goes on behind its last field. -/
  | exactItems (count : Nat)
deriving Repr, DecidableEq

/-- Why a tree is no value of the type that it should have. -/
inductive DecodeError where
  | missingField (name : String)
  | unknownField (name : String) (known : List String)
  | unknownVariant (name : String) (known : List String)
  | noFormFits (value : Formed)
  | wrongType (found : Tree) (wanted : Wanted)
  | wrongLength (length : Nat) (wanted : Arity)
deriving Repr, DecidableEq

/-- How a wanted type is called. -/
def Wanted.text : Wanted → String
  | .directives => "struct BuildDirectives"
  | .patch => "struct Patch"
  | .operation => "internally tagged enum PatchOperation"
  | .operationName => "variant identifier"
  | .map => "a map"
  | .sequence => "a sequence"
  | .string => "a string"
  | .boolean => "a boolean"

/-- How a type with several forms is called. -/
def Formed.text : Formed → String
  | .importSpec => "ImportSpec"
  | .matrixValue => "MatrixValue"
  | .path => "RawPath"
  | .patterns => "PatternsRepr"

/-- How a wanted length is called. -/
def Arity.text : Arity → String
  | .patchFields => "struct Patch with 4 elements"
  | .operationFields mode count =>
    "struct variant PatchOperation::" ++ mode ++ " with " ++ toString count ++ " elements"
  | .fewerItems => "fewer elements in array"
  | .exactItems count => toString count ++ " elements in sequence"

/-- How a value that does not fit is called. -/
def Tree.foundText : Tree → String
  | .null => "null"
  | .bool b => "boolean `" ++ (if b then "true" else "false") ++ "`"
  | .num (.int i) => "integer `" ++ toString i ++ "`"
  | .num (.double bits) => "floating point `" ++ Number.doubleText bits ++ "`"
  | .str s => "string " ++ Text.quoted s
  | .arr _ => "sequence"
  | .obj _ => "map"

/-- Names in backquotes with commas between them. -/
def DecodeError.nameList (names : List String) : String :=
  ", ".intercalate (names.map fun name => "`" ++ name ++ "`")

/-- The text of a fault. -/
def DecodeError.message : DecodeError → String
  | .missingField name => "missing field `" ++ name ++ "`"
  | .unknownField name known =>
    "unknown field `" ++ name ++ "`, expected one of " ++ nameList known
  | .unknownVariant name known =>
    "unknown variant `" ++ name ++ "`, expected one of " ++ nameList known
  | .noFormFits value => "data did not match any variant of untagged enum " ++ value.text
  | .wrongType found wanted =>
    "invalid type: " ++ found.foundText ++ ", expected " ++ wanted.text
  | .wrongLength length wanted =>
    "invalid length " ++ toString length ++ ", expected " ++ wanted.text

namespace Directive

/-! ## §2. Plain values -/

/-- A string. -/
def string : Tree → Except DecodeError String
  | .str s => .ok s
  | t => .error (.wrongType t .string)

/-- A string or null. -/
def string? : Tree → Except DecodeError (Option String)
  | .null => .ok none
  | t => (string t).map some

/-- A truth value or null. -/
def boolean? : Tree → Except DecodeError (Option Bool)
  | .null => .ok none
  | .bool b => .ok (some b)
  | t => .error (.wrongType t .boolean)

/-- The elements of a list, the first fault first. -/
def elements {α : Type} (element : Tree → Except DecodeError α) :
    List Tree → Except DecodeError (List α)
  | [] => .ok []
  | t :: rest => do
    let a ← element t
    let others ← elements element rest
    return a :: others

/-- A list. -/
def sequence {α : Type} (element : Tree → Except DecodeError α) :
    Tree → Except DecodeError (List α)
  | .arr items => elements element items
  | t => .error (.wrongType t .sequence)

/-- The values of an object under their keys, the first fault first. -/
def values {α : Type} (value : Tree → Except DecodeError α) :
    List (String × Tree) → Except DecodeError (Entries α)
  | [] => .ok []
  | (key, t) :: rest => do
    let a ← value t
    let others ← values value rest
    return (key, a) :: others

/-- An object whose keys are free. -/
def map {α : Type} (value : Tree → Except DecodeError α) : Tree → Except DecodeError (Entries α)
  | .obj fields => values value fields
  | t => .error (.wrongType t .map)

/-! ## §3. Values in several forms -/

/-- The strings of a list, if it holds nothing else. -/
def strings? : List Tree → Option (List String)
  | [] => some []
  | .str s :: rest => (strings? rest).map (s :: ·)
  | _ => none

/-- A path: a pointer, or the list of its segments. -/
def path : Tree → Except DecodeError WrittenPath
  | .str s => .ok (.pointer s)
  | .arr items =>
    match strings? items with
    | some names => .ok (.segments names)
    | none => .error (.noFormFits .path)
  | _ => .error (.noFormFits .path)

/-- A value of a matrix. -/
def matrixValue : Tree → Except DecodeError MatrixValue
  | .num n => .ok (.number n)
  | .str s => .ok (.text s)
  | _ => .error (.noFormFits .matrixValue)

/-- An import: a file, or an object with a file and a choice. -/
def importSpec : Tree → Except DecodeError ImportSpec
  | .str s => .ok (.file s)
  | .obj fields =>
    match Entries.get? "from" fields, Entries.get? "build" fields with
    | some (.str source), none => .ok (.detailed source true)
    | some (.str source), some (.bool build) => .ok (.detailed source build)
    | _, _ => .error (.noFormFits .importSpec)
  | _ => .error (.noFormFits .importSpec)

/-- Export patterns: the included ones alone, or an object with both lists. -/
def patterns : Tree → Except DecodeError ExportPatterns
  | .arr items =>
    match strings? items with
    | some included => .ok { included, excluded := [] }
    | none => .error (.noFormFits .patterns)
  | .obj fields =>
    match Entries.get? "include" fields with
    | some (.arr items) =>
      match strings? items, Entries.get? "exclude" fields with
      | some included, none => .ok { included, excluded := [] }
      | some included, some (.arr others) =>
        match strings? others with
        | some excluded => .ok { included, excluded }
        | none => .error (.noFormFits .patterns)
      | _, _ => .error (.noFormFits .patterns)
    | _ => .error (.noFormFits .patterns)
  | _ => .error (.noFormFits .patterns)

/-- Export patterns or null. -/
def patterns? : Tree → Except DecodeError (Option ExportPatterns)
  | .null => .ok none
  | t => (patterns t).map some

/-! ## §4. Operations -/

/-- The names of the modes in declared order. -/
def modeNames : List String := ["add", "merge", "replace", "copy", "move", "remove"]

/-- What distinguishes the operations: their modes, without any field. -/
inductive Mode where
  | write (mode : WriteMode)
  | transfer (mode : TransferMode)
  | remove
deriving Repr, DecidableEq

/-- The mode with a name. -/
def mode : Tree → Except DecodeError Mode
  | .str "add" => .ok (.write .add)
  | .str "merge" => .ok (.write .merge)
  | .str "replace" => .ok (.write .replace)
  | .str "copy" => .ok (.transfer .copy)
  | .str "move" => .ok (.transfer .move)
  | .str "remove" => .ok .remove
  | .str name => .error (.unknownVariant name modeNames)
  | t => .error (.wrongType t .operationName)

/-- The name of a mode where its fields are counted. -/
def Mode.title : Mode → String
  | .write .add => "Add"
  | .write .merge => "Merge"
  | .write .replace => "Replace"
  | .transfer .copy => "Copy"
  | .transfer .move => "Move"
  | .remove => "Remove"

/-- The fields of an operation in declared order. -/
def Mode.fieldNames : Mode → List String
  | .write _ => ["path", "value", "strict"]
  | .transfer _ => ["from", "path", "strict"]
  | .remove => ["path", "strict"]

/-- The fields of an operation as far as they have been read. -/
structure OperationDraft where
  source : Option WrittenPath
  path : Option WrittenPath
  value : Option Tree
  strict : Option Bool

/-- Reads one field of an operation; fields that its mode does not have are skipped. -/
def operationField (mode : Mode) (draft : OperationDraft) (name : String) (t : Tree) :
    Except DecodeError OperationDraft :=
  if name ∉ mode.fieldNames then .ok draft
  else if name = "path" then do return { draft with path := some (← path t) }
  else if name = "from" then do return { draft with source := some (← path t) }
  else if name = "value" then .ok { draft with value := some t }
  else do return { draft with strict := ← boolean? t }

/-- Reads the fields of an operation in the order in which they are written. -/
def operationFields (mode : Mode) (draft : OperationDraft) :
    List (String × Tree) → Except DecodeError OperationDraft
  | [] => .ok draft
  | (name, t) :: rest => do operationFields mode (← operationField mode draft name t) rest

/-- The operation that has been read; `missing` makes the fault for a field that was not. -/
def OperationDraft.finish (mode : Mode) (draft : OperationDraft)
    (missing : String → DecodeError) : Except DecodeError Operation :=
  match mode with
  | .write mode =>
    match draft.path, draft.value with
    | none, _ => .error (missing "path")
    | some _, none => .error (missing "value")
    | some path, some value => .ok (.write mode path value draft.strict)
  | .transfer mode =>
    match draft.source, draft.path with
    | none, _ => .error (missing "from")
    | some _, none => .error (missing "path")
    | some source, some path => .ok (.transfer mode source path draft.strict)
  | .remove =>
    match draft.path with
    | none => .error (missing "path")
    | some path => .ok (.remove path draft.strict)

/-- The draft of which nothing has been read. -/
def OperationDraft.empty : OperationDraft :=
  { source := none, path := none, value := none, strict := none }

/-- An operation: an object with the field `op`, or a list that starts with the mode. -/
def operation : Tree → Except DecodeError Operation
  | .obj fields =>
    match Entries.get? "op" fields with
    | none => .error (.missingField "op")
    | some name => do
      let mode ← mode name
      let draft ← operationFields mode .empty fields
      draft.finish mode .missingField
  | .arr [] => .error (.missingField "op")
  | .arr (name :: items) => do
    let mode ← mode name
    let names := mode.fieldNames
    let draft ← operationFields mode .empty (names.zip items)
    let operation ← draft.finish mode fun field =>
      .wrongLength (names.idxOf field) (.operationFields mode.title names.length)
    if names.length < items.length then
      .error (.wrongLength items.length (.exactItems names.length))
    else return operation
  | t => .error (.wrongType t .operation)

/-! ## §5. Patches -/

/-- The fields of a patch in declared order. -/
def patchFieldNames : List String := ["name", "strict", "matrix", "operations"]

/-- The fields of a patch as far as they have been read. -/
structure PatchDraft where
  name : Option String
  strict : Option Bool
  matrix : Option (Entries (List MatrixValue))
  operations : Option (List Operation)

/-- A matrix or null. -/
def matrix? : Tree → Except DecodeError (Option (Entries (List MatrixValue)))
  | .null => .ok none
  | t => (map (sequence matrixValue) t).map some

/-- Reads one field of a patch. -/
def patchField (draft : PatchDraft) (name : String) (t : Tree) :
    Except DecodeError PatchDraft :=
  if name = "name" then do return { draft with name := ← string? t }
  else if name = "strict" then do return { draft with strict := ← boolean? t }
  else if name = "matrix" then do return { draft with matrix := ← matrix? t }
  else if name = "operations" then do
    return { draft with operations := some (← sequence operation t) }
  else .error (.unknownField name patchFieldNames)

/-- Reads the fields of a patch in the order in which they are written. -/
def patchFields (draft : PatchDraft) : List (String × Tree) → Except DecodeError PatchDraft
  | [] => .ok draft
  | (name, t) :: rest => do patchFields (← patchField draft name t) rest

/-- The draft of which nothing has been read. -/
def PatchDraft.empty : PatchDraft :=
  { name := none, strict := none, matrix := none, operations := none }

/-- The patch that has been read; only its operations cannot be missing. -/
def PatchDraft.finish (draft : PatchDraft) (missing : DecodeError) : Except DecodeError Patch :=
  match draft.operations with
  | none => .error missing
  | some operations =>
    .ok { name := draft.name, strict := draft.strict, matrix := draft.matrix, operations }

/-- A patch. -/
def patch : Tree → Except DecodeError Patch
  | .obj fields => do
    let draft ← patchFields .empty fields
    draft.finish (.missingField "operations")
  | .arr items => do
    let draft ← patchFields .empty (patchFieldNames.zip items)
    let patch ← draft.finish (.wrongLength 3 .patchFields)
    if patchFieldNames.length < items.length then
      .error (.wrongLength items.length .fewerItems)
    else return patch
  | t => .error (.wrongType t .patch)

/-! ## §6. Directives -/

/-- The fields of directives in declared order; none of them has to be there. -/
def fieldNames : List String := ["imports", "patches", "exports"]

/-- Reads one field of directives. -/
def field (d : Directives) (name : String) (t : Tree) : Except DecodeError Directives :=
  if name = "imports" then do return { d with imports := ← map importSpec t }
  else if name = "patches" then do return { d with patches := ← sequence patch t }
  else if name = "exports" then do return { d with exports := ← patterns? t }
  else .error (.unknownField name fieldNames)

/-- Reads the fields of directives in the order in which they are written. -/
def fields (d : Directives) : List (String × Tree) → Except DecodeError Directives
  | [] => .ok d
  | (name, t) :: rest => do fields (← field d name t) rest

/-- The directives that a tree holds. -/
def decode : Tree → Except DecodeError Directives
  | .obj entries => fields .empty entries
  | .arr items => do
    let d ← fields .empty (fieldNames.zip items)
    if fieldNames.length < items.length then .error (.wrongLength items.length .fewerItems)
    else return d
  | t => .error (.wrongType t .directives)

end Directive

end DesignTokens
