/-
  DesignTokens.Project.Scaffold — starting a project.

  A new project has a configuration with one document to build, that document, one that it
  imports, and a list of what is not to be kept.  A folder that has a configuration is left
  alone; other files in the way are overwritten.

  Main facts:
    * `create_of_configured` — a folder with a configuration is left alone.
-/
import DesignTokens.Project.Build

namespace DesignTokens.Project

/-! ## §1. Texts -/

/-- Lines, each with its end. -/
def linesText (lines : List String) : String := String.join (lines.map (· ++ "\n"))

/-- The document to build. -/
def themeFile : String := "theme.yaml"

/-- The document that it imports. -/
def paletteFile : String := "palette.yaml"

/-- The list of what is not to be kept. -/
def ignoreFile : String := ".gitignore"

/-- What the imported document holds. -/
def paletteText : String := linesText [
  "# Raw color scales, imported by theme.yaml",
  "gray:",
  "  \"100\": \"#f3f4f6\"",
  "  \"500\": \"#6b7280\"",
  "  \"900\": \"#111827\"",
  "blue:",
  "  \"500\": \"#3b82f6\"",
  "  \"600\": \"#2563eb\""]

/-- What the document to build holds. -/
def themeText : String := linesText [
  "scale:",
  "  s: 4px",
  "  m: 8px",
  "  l: 16px",
  "  xl: 24px",
  "",
  "$build:",
  "  imports:",
  "    palette: \x7b from: ./palette.yaml, build: false \x7d",
  "  patches:",
  "    - name: colors",
  "      operations:",
  "        - \x7b op: copy, from: /palette/blue/500, path: /color/primary \x7d",
  "        - \x7b op: copy, from: /palette/gray/900, path: /color/text \x7d",
  "    - name: spacing",
  "      matrix:",
  "        size: [\"$[[s..xl]]\"]",
  "      operations:",
  "        - op: add",
  "          path: /space/$\x7b\x7b matrix.size \x7d\x7d",
  "          value: $\x7b\x7b scale.$\x7b\x7b matrix.size \x7d\x7d \x7d\x7d",
  "  exports:",
  "    include: [\"**\"]",
  "    exclude: [\"scale/**\"]"]

/-- What the list of what is not to be kept holds. -/
def ignoreText : String := linesText ["# Tinct build output", "/dist/"]

/-- The configuration of a new project. -/
def Config.initial (name : String) : Config where
  name := name
  entries := [{
    file := themeFile, css := some "dist/tokens.css", types := some "dist/tokens.d.ts" }]

/-! ## §2. Creating -/

/-- Why a project is not created. -/
inductive CreateFailure where
  /-- The folder cannot be made. -/
  | folder (path : String)
  /-- The folder has a configuration. -/
  | configured (path : String)
  | file (fault : FileFault)
deriving Repr, DecidableEq

/-- The text of a failure. -/
def CreateFailure.message : CreateFailure → String
  | .folder path => "Failed to create " ++ path
  | .configured path => configFile ++ " already exists in " ++ path
  | .file fault => fault.message

/-- The files of a new project below its folder, in the order in which they are written. -/
def initialFiles (name : String) : List (List String × String) :=
  [([configFile], (Config.initial name).text),
   ([standardSourceRoot, paletteFile], paletteText),
   ([standardSourceRoot, themeFile], themeText),
   ([ignoreFile], ignoreText)]

/-- Writes files below a folder, up to the first that cannot be written. -/
def writeFiles (folder : Place) : List (List String × String) → FileTree →
    Except FileFault Unit × FileTree
  | [], t => (.ok (), t)
  | (names, text) :: rest, t =>
    match t.write [] ⟨true, (folder ++ names).map .name⟩ text with
    | (.error fault, t) => (.error fault, t)
    | (.ok _, t) => writeFiles folder rest t

/-- Creates a project in a folder that exists. -/
def create (folder : Place) (path name : String) (t : FileTree) :
    Except CreateFailure Unit × FileTree :=
  if (t.node? (folder ++ [configFile])).isSome then (.error (.configured path), t)
  else match t.makeFolders folder (.parse standardSourceRoot) with
    | (.error fault, t) => (.error (.file fault), t)
    | (.ok _, t) =>
      match writeFiles folder (initialFiles name) t with
      | (.error fault, t) => (.error (.file fault), t)
      | (.ok _, t) => (.ok (), t)

/-- A folder with a configuration is left alone. -/
theorem create_of_configured {folder : Place} {t : FileTree} {node : FileNode}
    (h : t.node? (folder ++ [configFile]) = some node) (path name : String) :
    create folder path name t = (.error (.configured path), t) := by
  simp [create, h]

/-- The name of a project, where neither a name is given nor its folder has one. -/
def standardName : String := "tokens"

/-- Starts a project in the folder at a path, which is made if it is missing.  Without a name
    the project has that of its folder. -/
def start (path : String) (name? : Option String) (w : Workspace) : Report CreateFailure :=
  match w.tree.makeFolders w.here (.parse path) with
  | (.error _, tree) =>
    { lines := [], failure := some (.folder path), workspace := { w with tree } }
  | (.ok _, tree) =>
    let folder := (tree.locate? w.here (.parse path)).getD []
    let name := name?.getD (folder.getLast?.getD standardName)
    match create folder path name tree with
    | (.error fault, tree) =>
      { lines := [], failure := some fault, workspace := { w with tree } }
    | (.ok _, tree) =>
      { lines := ["Created tinct project `" ++ name ++ "` in " ++ path]
        failure := none
        workspace := { w with tree } }

end DesignTokens.Project
