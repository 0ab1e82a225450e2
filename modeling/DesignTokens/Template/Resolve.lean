/-
  DesignTokens.Template.Resolve — replacing the spans of a text by values.

  The body of a span is resolved first; without the blanks at its ends it is the name that is
  looked up.  A name that the source ignores, or whose value is null, keeps its span, written
  with one blank on either side of the name, so that another source can resolve it later.

  Main facts:
    * `resolve_of_not_occursIn` — a text that opens no span stays as it is.
-/
import DesignTokens.Template.Basic
import DesignTokens.Template.Variables
import DesignTokens.Text.Blank
import DesignTokens.Tree.Strings

namespace DesignTokens

/-! ## §1. One span -/

/-- The text of a scalar inside another text.  Null has none. -/
def Tree.scalarText? : Tree → Option String
  | .str s => some s
  | .num n => some n.text
  | .bool b => some (if b then "true" else "false")
  | .null | .arr _ | .obj _ => none

/-- The span of a name that is kept for later. -/
def Template.keptSpan (name : String) : List Char :=
  openMark ++ ' ' :: name.toList ++ ' ' :: closeMark

/-- What stands in the place of a span with this name. -/
def Variables.fill (vars : Variables) (name : String) : Except VariableError (List Char) :=
  match vars.lookup name with
  | .value value =>
    if value.isContainer then .error (.notScalar name)
    else
      match value.scalarText? with
      | some text => .ok text.toList
      | none => .ok (Template.keptSpan name)
  | .ignore => .ok (Template.keptSpan name)
  | .missing => .error (vars.notFound name)

/-! ## §2. Texts and trees -/

/-- The text of a template, its spans being filled from the left and from the inside. -/
def Template.render (vars : Variables) : Template → Except VariableError (List Char)
  | .done => .ok []
  | .text chars rest => do
    let following ← rest.render vars
    return chars ++ following
  | .span body rest => do
    let written ← body.render vars
    let filled ← vars.fill (String.ofList (Text.trim written))
    let following ← rest.render vars
    return filled ++ following

/-- A text with its spans replaced. -/
def Variables.resolve (vars : Variables) (input : String) : Except VariableError String :=
  ((Template.ofChars input.toList).render vars).map String.ofList

/-- A tree with the spans of all its strings replaced. -/
def Variables.resolveTree (vars : Variables) (t : Tree) : Except VariableError Tree :=
  t.mapStrings vars.resolve

/-- Whether a text opens a span. -/
def hasVariables (input : String) : Bool := Template.occursIn input.toList

/-! ## §3. Laws -/

/-- A text that opens no span is taken apart into nothing but text. -/
theorem Template.ofChars_of_not_occursIn {s : List Char} (h : occursIn s = false) (hne : s ≠ []) :
    ofChars s = .text s .done := by
  induction s with
  | nil => exact absurd rfl hne
  | cons c s ih =>
    rw [occursIn, Bool.or_eq_false_iff] at h
    have hmark : ∀ inside, c :: s ≠ '$' :: '{' :: '{' :: inside := by
      intro inside heq
      simp [heq, openMark] at h
    have hstep : ofChars (c :: s) = pushChar c (ofChars s) := by
      rw [ofChars]
      intro inside hc hs
      exact hmark inside (by rw [hc, hs])
    cases s with
    | nil => rw [hstep]; simp [ofChars, pushChar]
    | cons d s => rw [hstep, ih h.2 (by simp), pushChar]

/-- A text that opens no span stays as it is. -/
theorem resolve_of_not_occursIn (vars : Variables) {input : String}
    (h : hasVariables input = false) : vars.resolve input = .ok input := by
  by_cases hne : input.toList = []
  · have : input = "" := by rw [← String.ofList_toList (s := input), hne]
    subst this
    simp [Variables.resolve, Template.ofChars, Template.render, Except.map]
  · rw [Variables.resolve, Template.ofChars_of_not_occursIn h hne]
    simp [Template.render, Except.map, bind, Except.bind, pure, Except.pure]

end DesignTokens
