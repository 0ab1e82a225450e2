/-
  DesignTokens.Yaml.Gap — the blanks and line breaks between the words of a scalar.

  A gap within a line stands for itself.  A gap with line breaks is folded: a single line feed
  becomes a space, of several the first is dropped, and the blanks around them do not count.
-/
import DesignTokens.Yaml.Char

namespace DesignTokens.Yaml

/-- The separators between two words. -/
structure Gap where
  /-- The blanks in front of the first line break. -/
  blanks : List Char
  /-- The line breaks, each with the blanks behind it. -/
  lines : List (Char × List Char)
deriving Repr, DecidableEq

namespace Gap

/-! ## §1. Reading -/

/-- The separators at the front of a text, and the text behind them. -/
def read : List Char → Gap × List Char
  | [] => (⟨[], []⟩, [])
  | c :: s =>
    if isBlank c then
      let (gap, rest) := read s
      (⟨c :: gap.blanks, gap.lines⟩, rest)
    else if isBreak c then
      let (gap, rest) := read s
      (⟨[], (c, gap.blanks) :: gap.lines⟩, rest)
    else (⟨[], []⟩, c :: s)

/-! ## §2. Shape -/

/-- Whether the gap breaks the line. -/
def isBroken (gap : Gap) : Bool := !gap.lines.isEmpty

/-- The line breaks. -/
def breaks (gap : Gap) : List Char := gap.lines.map Prod.fst

/-- The column that a broken gap leads to. -/
def column (gap : Gap) : Nat := (gap.lines.getLast?.map fun (_, blanks) => blanks.length).getD 0

/-- Whether a tab stands in the margin of a line. -/
def hasTabWithin (margin : Nat) (gap : Gap) : Bool :=
  gap.lines.any fun (_, blanks) => (blanks.take margin).contains '\t'

/-- Whether the gap leads to the mark that starts or ends a document. -/
def leadsToMarker (gap : Gap) (rest : List Char) : Bool :=
  gap.isBroken && gap.column == 0 && atMarker rest

/-! ## §3. Folding -/

/-- What the gap stands for. -/
def text (gap : Gap) : List Char :=
  match gap.breaks with
  | [] => gap.blanks
  | '\n' :: [] => [' ']
  | '\n' :: more => more
  | breaks => breaks

end Gap

end DesignTokens.Yaml
