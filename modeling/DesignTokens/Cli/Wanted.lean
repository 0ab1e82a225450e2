/-
  DesignTokens.Cli.Wanted — the places that a run of the program looks at.

  A run depends on the files at a few places only: the configuration, the documents that are
  read, and what lies on the way to the outputs.  Which documents are read shows only once those
  that import them are known, so the answer for a part of the files may ask for more.
-/
import DesignTokens.Cli.Run

namespace DesignTokens.Cli

open Project (Setup Progress)

/-- The places that a path leads through, seen from a folder, and the one it leads to. -/
def placesOn (here : Place) (path : DocPath) : List Place :=
  let steps := ((Workspace.pathOf here).join path).normalize.steps
  let names := steps.filterMap fun
    | .name name => some name
    | .up => none
  (List.range names.length).map fun n => names.take (n + 1)

/-- The paths that building the documents of a project looks at. -/
def buildPaths (config : String) (only : Option String) (w : Workspace) : List DocPath :=
  let found := [.parse config, .parse (Project.pathBehind config Project.configFile)]
  match Setup.find w config with
  | .error _ => found
  | .ok setup =>
    let entries := setup.config.selected only
    let read := (entries.foldl (Progress.step setup false) (.start w)).loads.reads
    let outputs := entries.flatMap fun e => e.css.toList ++ e.types.toList
    found ++ read ++ outputs.map fun path => setup.base.join (.parse path)

/-- The paths that starting a project looks at. -/
def startPaths (path : String) : List DocPath :=
  (Project.initialFiles "").map fun (names, _) =>
    (DocPath.parse path).join ⟨false, names.map .name⟩

/-- The places that a run looks at, as far as the known files tell. -/
def wanted (arguments : List String) (w : Workspace) : List Place :=
  let paths := match read arguments with
    | .ok (.run (.build config only)) => buildPaths config only w
    | .ok (.run (.check config)) => buildPaths config none w
    | .ok (.run (.init path _)) => startPaths path
    | _ => []
  paths.flatMap (placesOn w.here)

end DesignTokens.Cli
