/-
  DesignTokens.Project.Config — the configuration of a project.

  The configuration names the project, the folder that holds its documents, and the documents to
  build with what is written for each.  What it says beyond that is skipped.
-/
import DesignTokens.Files.Tree
import DesignTokens.Toml.Printer
import DesignTokens.Toml.Reader

namespace DesignTokens.Project

/-- The name of the file that holds the configuration. -/
def configFile : String := "tinct.toml"

/-- A document to build. -/
structure EntryConfig where
  /-- The reference to the document. -/
  file : String
  /-- The stem of its properties, where it is not the name of the project. -/
  stem : Option String := none
  selector : String := ":root"
  /-- Where the stylesheet goes, if there is to be one. -/
  css : Option String := none
  /-- Where the type declaration goes, if there is to be one. -/
  types : Option String := none
  typeName : String := "Tokens"
deriving Repr, DecidableEq

/-- The folder that holds the documents, where nothing else is said. -/
def standardSourceRoot : String := "tokens"

/-- A configuration. -/
structure Config where
  name : String
  sourceRoot : String := standardSourceRoot
  entries : List EntryConfig := []
deriving Repr, DecidableEq

/-! ## §1. Reading -/

/-- A field of a record.  A record may be written as the list of its fields. -/
def recordField? (record : Tree) (index : Nat) (key : String) : Option Tree :=
  match record with
  | .obj fields => Entries.get? key fields
  | .arr items => items[index]?
  | _ => none

/-- A field that must be there. -/
def text? (record : Tree) (index : Nat) (key : String) : Option String :=
  match recordField? record index key with
  | some (.str s) => some s
  | _ => none

/-- A field that may be missing. -/
def optionalText? (record : Tree) (index : Nat) (key : String) : Option (Option String) :=
  match recordField? record index key with
  | none => some none
  | some (.str s) => some (some s)
  | some _ => none

/-- A document to build. -/
def EntryConfig.ofTree? (t : Tree) : Option EntryConfig := do
  let file ← text? t 0 "file"
  let stem ← optionalText? t 1 "prefix"
  let selector ← optionalText? t 2 "selector"
  let css ← optionalText? t 3 "css"
  let types ← optionalText? t 4 "types"
  let typeName ← optionalText? t 5 "type_name"
  let standard : EntryConfig := { file }
  return { file, stem, css, types, selector := selector.getD standard.selector,
           typeName := typeName.getD standard.typeName }

/-- A configuration. -/
def Config.ofTree? (t : Tree) : Option Config := do
  let project ← recordField? t 0 "project"
  let name ← text? project 0 "name"
  let sourceRoot ← optionalText? project 1 "source_root"
  let entries ← match recordField? t 1 "entry" with
    | none => some []
    | some (.arr items) => items.mapM EntryConfig.ofTree?
    | some _ => none
  return { name, sourceRoot := sourceRoot.getD standardSourceRoot, entries }

/-- The configuration that a text holds. -/
def Config.parse? (text : String) : Option Config :=
  (Toml.parse? text.toList).bind Config.ofTree?

/-! ## §2. Writing -/

/-- A field that is left out if it is missing. -/
def optionalLine (key : String) (value : Option String) : String :=
  (value.map (Toml.fieldLine key)).getD ""

/-- A document to build, as it is written. -/
def EntryConfig.text (e : EntryConfig) : String :=
  "[[entry]]\n" ++ Toml.fieldLine "file" e.file ++ optionalLine "prefix" e.stem
    ++ Toml.fieldLine "selector" e.selector ++ optionalLine "css" e.css
    ++ optionalLine "types" e.types ++ Toml.fieldLine "type_name" e.typeName

/-- A configuration, as it is written. -/
def Config.text (c : Config) : String :=
  "\n".intercalate <|
    ("[project]\n" ++ Toml.fieldLine "name" c.name
      ++ Toml.fieldLine "source_root" c.sourceRoot) :: c.entries.map EntryConfig.text

/-! ## §3. Finding -/

/-- Why there is no configuration.  Each names the path that was asked for or read. -/
inductive ConfigError where
  | missing (path : String)
  | unreadable (path : String)
  | malformed (path : String)
deriving Repr, DecidableEq

/-- The text of a failure. -/
def ConfigError.message : ConfigError → String
  | .missing path =>
    "No " ++ configFile ++ " found in " ++ path ++ ". Run `tinct init` to create one."
  | .unreadable path => "Failed to read " ++ path
  | .malformed path => "Failed to parse " ++ path

/-- A configuration, and the folder that its paths start from. -/
structure Setup where
  config : Config
  base : DocPath
deriving Repr, DecidableEq

/-- A path with a name behind it, as it is written. -/
def pathBehind (path name : String) : String :=
  if path = "" ∨ path.toList.getLast? = some '/' then path ++ name else path ++ "/" ++ name

/-- Finds the configuration at a path, or in the folder at a path. -/
def Setup.find (w : Workspace) (path : String) : Except ConfigError Setup :=
  let file := match w.node? path with
    | some (.file _) => path
    | _ => pathBehind path configFile
  match w.node? file with
  | none => .error (.missing path)
  | some .folder => .error (.unreadable file)
  | some (.file text) =>
    match Config.parse? text with
    | none => .error (.malformed file)
    | some config =>
      let place := DocPath.parse file
      .ok { config, base := { place with steps := place.steps.dropLast } }

/-- The folder that holds the documents, seen from the outermost folder on. -/
def Setup.sourceRoot (s : Setup) (w : Workspace) : DocPath :=
  ((Workspace.pathOf w.here).join (s.base.join (.parse s.config.sourceRoot))).normalize

/-- The stem of the properties of a document. -/
def Setup.stem (s : Setup) (e : EntryConfig) : String := e.stem.getD s.config.name

end DesignTokens.Project
