/-
  DesignTokens.Cli.Run — running the program.

  A run takes the files as they are to the files as they are then, and answers what is printed
  and the code that the program ends with: zero if all went well, one if a command failed, two
  if the arguments were not understood.

  Main facts:
    * `exitCode_ofReport` — the code tells whether a command failed.
-/
import DesignTokens.Cli.Help
import DesignTokens.Project.Scaffold

namespace DesignTokens.Cli

open Project (Report)

/-- What a run of the program answers. -/
structure Outcome where
  exitCode : Nat
  /-- The lines of the output. -/
  output : List String
  /-- The lines of the error output. -/
  errors : List String
deriving Repr, DecidableEq

/-- The outcome of a command. -/
def Outcome.ofReport {failure : Type} (message : failure → String) (r : Report failure) :
    Outcome :=
  match r.failure with
  | none => ⟨0, r.lines, []⟩
  | some fault => ⟨1, r.lines, ["Error: " ++ message fault]⟩

/-- Runs a command. -/
def runCommand (command : Command) (w : Workspace) : Outcome × Workspace :=
  match command with
  | .build config only =>
    let r := Project.build config only true w
    (.ofReport Project.BuildFailure.message r, r.workspace)
  | .check config =>
    let r := Project.build config none false w
    (.ofReport Project.BuildFailure.message r, r.workspace)
  | .init path name =>
    let r := Project.start path name w
    (.ofReport Project.CreateFailure.message r, r.workspace)

/-- Runs the program with its arguments. -/
def run (arguments : List String) (w : Workspace) : Outcome × Workspace :=
  match read arguments with
  | .error e => (⟨2, [], e.message⟩, w)
  | .ok (.help topic) => (⟨0, helpLines topic, []⟩, w)
  | .ok .version => (⟨0, [versionText], []⟩, w)
  | .ok (.run command) => runCommand command w

/-- The code tells whether a command failed. -/
theorem exitCode_ofReport {failure : Type} (message : failure → String) (r : Report failure) :
    (Outcome.ofReport message r).exitCode = if r.failure.isNone then 0 else 1 := by
  unfold Outcome.ofReport
  cases r.failure <;> rfl

end DesignTokens.Cli
