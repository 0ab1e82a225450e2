/-
  DesignTokens.Directive.Encode — directives as a tree.

  Every field of a record is written, absent ones as null, but for the strictness of an
  operation and an empty list of excluded patterns, which are left out.
-/
import DesignTokens.Directive.Basic

namespace DesignTokens

/-- A value, or null for none. -/
def Tree.ofOption {α : Type} (encode : α → Tree) : Option α → Tree
  | none => .null
  | some a => encode a

/-- A list of strings. -/
def Tree.ofStrings (strings : List String) : Tree := .arr (strings.map .str)

namespace WrittenPath

/-- A path as it is written. -/
def encode : WrittenPath → Tree
  | .pointer text => .str text
  | .segments names => Tree.ofStrings names

end WrittenPath

namespace Operation

/-- The field for the strictness of an operation, if it has one. -/
def strictField : Option Bool → List (String × Tree)
  | none => []
  | some strict => [("strict", .bool strict)]

/-- An operation with its mode first. -/
def encode : Operation → Tree
  | .write mode path value strict =>
    .obj ([("op", .str mode.name), ("path", path.encode), ("value", value)] ++ strictField strict)
  | .transfer mode source path strict =>
    .obj ([("op", .str mode.name), ("from", source.encode), ("path", path.encode)]
      ++ strictField strict)
  | .remove path strict =>
    .obj ([("op", .str "remove"), ("path", path.encode)] ++ strictField strict)

end Operation

/-- An import in its own form. -/
def ImportSpec.encode : ImportSpec → Tree
  | .file source => .str source
  | .detailed source build => .obj [("from", .str source), ("build", .bool build)]

/-- A value of a matrix. -/
def MatrixValue.encode : MatrixValue → Tree
  | .number n => .num n
  | .text s => .str s

/-- A matrix with its keys in written order. -/
def Patch.encodeMatrix (matrix : Entries (List MatrixValue)) : Tree :=
  .obj (matrix.map fun (key, values) => (key, .arr (values.map MatrixValue.encode)))

/-- A patch. -/
def Patch.encode (p : Patch) : Tree :=
  .obj [("name", Tree.ofOption .str p.name), ("strict", Tree.ofOption .bool p.strict),
    ("matrix", Tree.ofOption encodeMatrix p.matrix),
    ("operations", .arr (p.operations.map Operation.encode))]

/-- Export patterns. -/
def ExportPatterns.encode (e : ExportPatterns) : Tree :=
  .obj (("include", Tree.ofStrings e.included)
    :: if e.excluded.isEmpty then [] else [("exclude", Tree.ofStrings e.excluded)])

/-- Directives. -/
def Directives.encode (d : Directives) : Tree :=
  .obj [("imports", .obj (d.imports.map fun (key, spec) => (key, spec.encode))),
    ("patches", .arr (d.patches.map Patch.encode)),
    ("exports", Tree.ofOption ExportPatterns.encode d.exports)]

end DesignTokens
