/-
  DesignTokens.Build.Entry — from a reference to a built document in one step.
-/
import DesignTokens.Build.Builder
import DesignTokens.Source.Loader

namespace DesignTokens

/-- Why an entry document cannot be built. -/
inductive EntryError where
  | load (fault : LoadError)
  | build (fault : BuildError)
deriving Repr, DecidableEq

/-- The text of a failure. -/
def EntryError.message : EntryError → String
  | .load fault => fault.message
  | .build fault => fault.message

/-- The texts of what lies behind a failure. -/
def EntryError.causes : EntryError → List String
  | .load fault => fault.causes
  | .build fault => fault.causes

/-- Loads a document and builds it, starting from nothing and without strictness. -/
def Loader.buildEntry (l : Loader) (file : String) : Except EntryError (Option Tree) := do
  let source ← (l.load file .empty).1.mapError .load
  (source.build false .empty).1.mapError .build

end DesignTokens
