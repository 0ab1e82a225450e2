/-
  DesignTokens.DocPath — paths of documents.

  A path is absolute or relative and is made of steps: names, and steps up.  Empty pieces and
  single dots between slashes mean nothing and are dropped when a path is read, so paths are
  compared step by step and not by their text.

  Main facts:
    * `normalize_normalize` — folding a folded path changes nothing.
    * `within_append` — what follows a root stays inside of it.
-/
import DesignTokens.Text.Pieces

namespace DesignTokens

/-- A step of a path. -/
inductive PathStep where
  | up
  | name (text : String)
deriving Repr, DecidableEq, Inhabited

/-- A path of a document. -/
structure DocPath where
  absolute : Bool
  steps : List PathStep
deriving Repr, DecidableEq, Inhabited

/-- The text of a step. -/
def PathStep.text : PathStep → String
  | .up => ".."
  | .name text => text

/-- The step that a piece between slashes stands for, if it stands for one. -/
def PathStep.ofPiece? (piece : String) : Option PathStep :=
  if piece = "" ∨ piece = "." then none
  else if piece = ".." then some .up
  else some (.name piece)

namespace DocPath

/-! ## §1. Texts -/

/-- The path that a text names. -/
def parse (text : String) : DocPath where
  absolute := text.toList.head? = some '/'
  steps := (Text.splitString '/' text).filterMap PathStep.ofPiece?

/-- The text of a path. -/
def text (p : DocPath) : String :=
  (if p.absolute then "/" else "") ++ "/".intercalate (p.steps.map PathStep.text)

instance : ToString DocPath := ⟨text⟩

/-! ## §2. Folding -/

/-- Takes one more step behind steps that have been folded, the last first.  A step up takes
    the last step away, and stays where there is none. -/
def fold (folded : List PathStep) : PathStep → List PathStep
  | .name text => .name text :: folded
  | .up =>
    match folded with
    | [] => [.up]
    | _ :: rest => rest

/-- The path with its steps up folded, without asking what exists. -/
def normalize (p : DocPath) : DocPath :=
  { p with steps := (p.steps.foldl fold []).reverse }

/-- The path that a reference means when it is read against a root. -/
def join (root reference : DocPath) : DocPath :=
  if reference.absolute then reference
  else { root with steps := root.steps ++ reference.steps }

/-- The folded path that a written reference means under a root. -/
def resolve (root : DocPath) (reference : String) : DocPath :=
  (root.join (parse reference)).normalize

/-! ## §3. Places -/

/-- Whether a path starts with all steps of another. -/
def startsWith (p root : DocPath) : Bool :=
  if root.absolute then p.absolute && root.steps.isPrefixOf p.steps
  else if p.absolute then root.steps.isEmpty
  else root.steps.isPrefixOf p.steps

/-- Whether a folded path lies inside a folded root. -/
def within (p root : DocPath) : Bool :=
  (p.absolute || p.steps.head? != some .up) && p.startsWith root

/-- The name of the document, if the path ends in a name. -/
def fileName? (p : DocPath) : Option String :=
  match p.steps.getLast? with
  | some (.name text) => some text
  | _ => none

/-- What stands behind the last dot of a name, unless the dot comes first or there is none. -/
def extensionOf (name : String) : Option String :=
  match (Text.splitString '.' name).reverse with
  | last :: before =>
    if before = [] ∨ before = [""] then none else some last
  | [] => none

/-- The extension of the document. -/
def extension? (p : DocPath) : Option String := p.fileName?.bind extensionOf

/-! ## §4. Laws -/

/-- A step up stands at most at the bottom of folded steps, which have the last step first. -/
def Folded : List PathStep → Prop
  | [] | [_] => True
  | .name _ :: step :: rest => Folded (step :: rest)
  | .up :: _ :: _ => False

theorem folded_tail {step : PathStep} {rest : List PathStep} (h : Folded (step :: rest)) :
    Folded rest := by
  cases rest with
  | nil => trivial
  | cons next rest =>
    cases step with
    | up => exact False.elim h
    | name text => exact h

theorem folded_fold {folded : List PathStep} (h : Folded folded) (step : PathStep) :
    Folded (fold folded step) := by
  cases step with
  | name text =>
    cases folded with
    | nil => trivial
    | cons next rest => exact h
  | up =>
    cases folded with
    | nil => trivial
    | cons next rest => exact folded_tail h

theorem folded_foldl (steps : List PathStep) {folded : List PathStep} (h : Folded folded) :
    Folded (steps.foldl fold folded) := by
  induction steps generalizing folded with
  | nil => exact h
  | cons step rest ih => exact ih (folded_fold h step)

/-- Folded steps come out of another folding as they went in. -/
theorem foldl_reverse_of_folded {folded : List PathStep} (h : Folded folded) :
    folded.reverse.foldl fold [] = folded := by
  induction folded with
  | nil => rfl
  | cons step rest ih =>
    rw [List.reverse_cons, List.foldl_append, ih (folded_tail h)]
    cases step with
    | name text => rfl
    | up =>
      cases rest with
      | nil => rfl
      | cons next rest => exact False.elim h

/-- Folding a folded path changes nothing. -/
theorem normalize_normalize (p : DocPath) : p.normalize.normalize = p.normalize := by
  have hsteps : (p.steps.foldl fold []).reverse.foldl fold [] = p.steps.foldl fold [] :=
    foldl_reverse_of_folded (folded_foldl p.steps trivial)
  simp only [normalize, hsteps]

/-- What follows an absolute root stays inside of it. -/
theorem within_append {root : DocPath} (habs : root.absolute = true) (steps : List PathStep) :
    (DocPath.mk true (root.steps ++ steps)).within root = true := by
  simp [within, startsWith, habs]

end DocPath

end DesignTokens
