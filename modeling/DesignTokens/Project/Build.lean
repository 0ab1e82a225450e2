/-
  DesignTokens.Project.Build — building the documents of a project.

  The documents are loaded and built one after the other with what earlier ones left loaded and
  built.  A document that fails does not stop the others.  Outputs are written as soon as their
  document is built, so a later document is read from the files as they are then.

  Main facts:
    * `tree_step_of_check` — a check writes nothing.
-/
import DesignTokens.Build.Builder
import DesignTokens.Project.Config
import DesignTokens.Source.Loader
import DesignTokens.Token.Declaration

namespace DesignTokens.Project

/-! ## §1. Outputs -/

/-- Writes an output, if a path is given for it. -/
def writeOptional (base : DocPath) (path? : Option String) (text : String) (w : Workspace) :
    Bool × Workspace :=
  match path? with
  | none => (true, w)
  | some path =>
    let (result, w) := w.save base path text
    (result.isOk, w)

/-- Writes the outputs of a document.  The type declaration is not written if the stylesheet
    cannot be. -/
def writeOutputs (s : Setup) (e : EntryConfig) (table : TokenTable) (w : Workspace) :
    Bool × Workspace :=
  match writeOptional s.base e.css (table.css e.selector) w with
  | (false, w) => (false, w)
  | (true, w) => writeOptional s.base e.types (table.declarations e.typeName) w

/-! ## §2. Documents -/

/-- What has been done so far. -/
structure Progress where
  workspace : Workspace
  loads : LoadState
  builds : BuildState
  /-- The lines that were printed, in order. -/
  lines : List String
  /-- How many documents failed. -/
  failed : Nat

/-- Before the first document. -/
def Progress.start (w : Workspace) : Progress :=
  { workspace := w, loads := .empty, builds := .empty, lines := [], failed := 0 }

/-- The loader of a project, for the files as they are. -/
def Setup.loader (s : Setup) (w : Workspace) : Loader :=
  { io := .ofFiles w.documents, root := s.sourceRoot w }

/-- The tokens of a document. -/
def Progress.tokens (p : Progress) (s : Setup) (e : EntryConfig) :
    Option TokenTable × LoadState × BuildState :=
  match (s.loader p.workspace).load e.file p.loads with
  | (.error _, loads) => (none, loads, p.builds)
  | (.ok source, loads) =>
    match source.build false p.builds with
    | (.error _, builds) => (none, loads, builds)
    | (.ok exports, builds) =>
      (some (.ofTree (s.stem e) (exports.getD (.obj []))), loads, builds)

/-- The line that a document is reported with. -/
def reportLine (e : EntryConfig) (table : TokenTable) : String :=
  e.file ++ ": " ++ toString table.size ++ " tokens"

/-- Deals with one document; `write` says whether its outputs are written. -/
def Progress.step (s : Setup) (write : Bool) (p : Progress) (e : EntryConfig) : Progress :=
  match p.tokens s e with
  | (none, loads, builds) => { p with loads, builds, failed := p.failed + 1 }
  | (some table, loads, builds) =>
    let p := { p with loads, builds }
    let (written, workspace) :=
      if write then writeOutputs s e table p.workspace else (true, p.workspace)
    if written then { p with workspace, lines := p.lines ++ [reportLine e table] }
    else { p with workspace, failed := p.failed + 1 }

/-- A check writes nothing. -/
theorem tree_step_of_check (s : Setup) (p : Progress) (e : EntryConfig) :
    (p.step s false e).workspace = p.workspace := by
  rw [Progress.step]
  split <;> rfl

/-! ## §3. Projects -/

/-- Why a project is not built as a whole. -/
inductive BuildFailure where
  | config (fault : ConfigError)
  /-- No entry has this file. -/
  | noEntry (file : String)
  | noEntries
  | failed (count total : Nat)
deriving Repr, DecidableEq

/-- The text of a failure. -/
def BuildFailure.message : BuildFailure → String
  | .config fault => fault.message
  | .noEntry file => "No entry `" ++ file ++ "` in configuration"
  | .noEntries => "No entries configured"
  | .failed count total => toString count ++ " of " ++ toString total ++ " entries failed"

/-- The documents to build: all, or those with one file. -/
def Config.selected (c : Config) (only : Option String) : List EntryConfig :=
  c.entries.filter fun e => only.all (· == e.file)

/-- What a command leaves behind: the lines it prints, its failure, and the files. -/
structure Report (failure : Type) where
  lines : List String
  failure : Option failure
  workspace : Workspace

/-- Builds the documents that a configuration names. -/
def Setup.build (s : Setup) (only : Option String) (write : Bool) (w : Workspace) :
    Report BuildFailure :=
  match s.config.selected only with
  | [] =>
    let failure := (only.map BuildFailure.noEntry).getD .noEntries
    { lines := [], failure := some failure, workspace := w }
  | entries =>
    let p := entries.foldl (Progress.step s write) (.start w)
    { lines := p.lines
      failure := if p.failed = 0 then none else some (.failed p.failed entries.length)
      workspace := p.workspace }

/-- Builds the documents of the project that is configured at a path. -/
def build (path : String) (only : Option String) (write : Bool) (w : Workspace) :
    Report BuildFailure :=
  match Setup.find w path with
  | .error fault => { lines := [], failure := some (.config fault), workspace := w }
  | .ok setup => setup.build only write w

end DesignTokens.Project
