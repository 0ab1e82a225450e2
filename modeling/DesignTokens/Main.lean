/-
  DesignTokens.Main — the program.

  The files that a run looks at are fetched first, round by round as they turn out to be wanted.
  The run itself works on what was fetched; the files that it changes are written at the end.
-/
import DesignTokens.Cli.Wanted

open DesignTokens

/-- The path of a place, as it is written. -/
def pathOf (place : Place) : String := (Workspace.pathOf place).text

/-- What stands at a place.  What is there but cannot be read as a text counts as a folder. -/
def fetch (place : Place) : IO (Option FileNode) := do
  try
    let bytes ← IO.FS.readBinFile (pathOf place)
    return some (((String.fromUTF8? bytes).map FileNode.file).getD .folder)
  catch
    | .noFileOrDirectory .. => return none
    | _ => return some .folder

/-- Fetches the wanted places until no new ones turn up. -/
partial def fetchWanted (arguments : List String) (known : List Place) (w : Workspace) :
    IO Workspace := do
  match (Cli.wanted arguments w).find? (!known.contains ·) with
  | none => return w
  | some place =>
    let tree := match ← fetch place with
      | some node => w.tree.set place node
      | none => w.tree
    fetchWanted arguments (place :: known) { w with tree }

/-- Writes a changed file. -/
def store (change : Place × String) : IO Unit := do
  let (place, text) := change
  IO.FS.createDirAll (pathOf place.dropLast)
  IO.FS.writeFile (pathOf place) text

def main (arguments : List String) : IO UInt32 := do
  let folder := DocPath.parse (toString (← IO.currentDir))
  let here := folder.steps.map PathStep.text
  let (_, tree) := FileTree.makeFolders [] folder ⟨[]⟩
  let before ← fetchWanted arguments [] ⟨tree, here⟩
  let (outcome, after) := Cli.run arguments before
  (before.changes after).forM store
  outcome.output.forM IO.println
  outcome.errors.forM IO.eprintln
  return outcome.exitCode.toUInt32
