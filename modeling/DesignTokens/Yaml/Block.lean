/-
  DesignTokens.Yaml.Block — scalars that are whole lines.

  The lines of a block scalar share an indentation, which is written in its header or taken from
  its first lines.  A literal scalar keeps its line breaks; a folded one turns a break between
  two lines that do not start with a blank into a space.
-/
import DesignTokens.Yaml.Char

namespace DesignTokens.Yaml

open Text (Read startsWith)

/-! ## §1. The header -/

/-- What becomes of the line breaks at the end of a scalar. -/
inductive Chomping where
  /-- All are dropped. -/
  | strip
  /-- The first stays. -/
  | clip
  /-- All stay. -/
  | keep
deriving Repr, DecidableEq

/-- How the lines of a scalar are read. -/
structure BlockHeader where
  chomping : Chomping
  /-- By how many columns the lines are indented behind their parent, if that is written. -/
  indentation : Option Nat
deriving Repr, DecidableEq

/-- The chomping that a character asks for. -/
def chompingMark? : Read Chomping
  | '-' :: s => some (.strip, s)
  | '+' :: s => some (.keep, s)
  | _ => none

/-- A written indentation, if one follows.  Zero is none. -/
def indentationMark? : Read (Option Nat)
  | c :: s =>
    if c = '0' then none
    else if c.isDigit then some (some (c.toNat - '0'.toNat), s)
    else some (none, c :: s)
  | [] => some (none, [])

/-- The marks of a header in either order, up to the end of its line. -/
def blockHeader? : Read BlockHeader := fun s => do
  let (header, s) ← match chompingMark? s with
    | some (chomping, s) => do
      let (indentation, s) ← indentationMark? s
      pure (BlockHeader.mk chomping indentation, s)
    | none => do
      let (indentation, s) ← indentationMark? s
      match if indentation.isSome then chompingMark? s else none with
      | some (chomping, s) => pure (BlockHeader.mk chomping indentation, s)
      | none => pure (BlockHeader.mk .clip indentation, s)
  let s := s.dropWhile isBlank
  let s := if startsWith (· == '#') s then s.dropWhile (!isBreak ·) else s
  match s with
  | [] => return (header, [])
  | c :: s => if isBreak c then return (header, s) else none

/-! ## §2. Empty lines -/

/-- The empty lines in front of a line. -/
structure EmptyLines where
  breaks : List Char
  /-- The column where the line starts. -/
  column : Nat
  /-- The greatest column that a line among them starts or ends at. -/
  widest : Nat
deriving Repr, DecidableEq

/-- Empty lines and the indentation of the line behind them.  No more than `indent` columns are
    taken as indentation, if that is known; a tab must not stand there. -/
def emptyLines? (indent : Option Nat) (column : Nat) : Read EmptyLines
  | [] => some (⟨[], column, column⟩, [])
  | c :: s =>
    let inMargin := indent.all (column < ·)
    if c = ' ' ∧ inMargin then emptyLines? indent (column + 1) s
    else if c = '\t' ∧ inMargin then none
    else if isBreak c then
      (emptyLines? indent 0 s).map fun (found, rest) =>
        ({ found with breaks := c :: found.breaks, widest := max column found.widest }, rest)
    else some (⟨[], column, column⟩, c :: s)

/-! ## §3. Lines -/

/-- What a scalar holds, the line breaks at its end apart. -/
structure BlockText where
  text : List Char
  /-- The break behind the last line. -/
  lastBreak : List Char
  /-- The breaks of the empty lines behind it. -/
  emptyBreaks : List Char
deriving Repr, DecidableEq

/-- What stands between two lines: `lastBreak` and `emptyBreaks` are the breaks between them,
    and `flush` says that neither line starts with a blank. -/
def lineJoint (folded flush : Bool) (lastBreak emptyBreaks : List Char) : List Char :=
  if folded && flush && lastBreak == ['\n'] then
    if emptyBreaks.isEmpty then [' '] else emptyBreaks
  else lastBreak ++ emptyBreaks

/-- The lines that start at column `indent`.  `behind` tells of the line in front of them:
    whether it starts with a blank, and its breaks. -/
def blockLines? (folded : Bool) (indent : Nat) :
    Nat → (startedBlank : Bool) → (lastBreak : List Char) → EmptyLines → Read BlockText
  | 0, _, _, _, _ => none
  | bound + 1, startedBlank, lastBreak, found, s =>
    if s.isEmpty || found.column != indent then some (⟨[], lastBreak, found.breaks⟩, s)
    else do
      let startsBlank := startsWith isBlank s
      let joint := lineJoint folded (!startedBlank && !startsBlank) lastBreak found.breaks
      let line := s.takeWhile (!isBreak ·)
      let rest := s.dropWhile (!isBreak ·)
      let (next, left) ← emptyLines? (some indent) 0 rest.tail
      let (more, left) ← blockLines? folded indent bound startsBlank (rest.take 1) next left
      return ({ more with text := joint ++ line ++ more.text }, left)

/-- The text of a scalar with the line breaks at its end. -/
def BlockText.chomped (chomping : Chomping) (b : BlockText) : List Char :=
  match chomping with
  | .strip => b.text
  | .clip => b.text ++ b.lastBreak
  | .keep => b.text ++ b.lastBreak ++ b.emptyBreaks

/-- A block scalar behind its first character.  Its parent leaves columns from `margin` on to
    it. -/
def blockText? (folded : Bool) (margin : Nat) : Read (List Char) := fun s => do
  let (header, s) ← blockHeader? s
  let indent? := header.indentation.map fun n => (margin - 1) + n
  let (found, s) ← emptyLines? indent? 0 s
  let indent := indent?.getD (max (max found.widest margin) 1)
  let (body, rest) ← blockLines? folded indent (s.length + 1) false [] found s
  return (body.chomped header.chomping, rest)

end DesignTokens.Yaml
