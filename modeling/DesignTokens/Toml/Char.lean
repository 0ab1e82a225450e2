/-
  DesignTokens.Toml.Char — blanks, line ends and comments of a TOML text.

  A line ends with a line feed, which a carriage return may precede; a carriage return means
  nothing else.  Control characters other than the tab may not occur, comments included.
-/
import DesignTokens.Text.Reading

namespace DesignTokens.Toml

open Text (Read startsWith)

/-- The blanks within a line. -/
def isBlank (c : Char) : Bool := c == ' ' || c == '\t'

/-- Whether a character may stand in a comment, and in a string as far as it does not end it. -/
def isPlain (c : Char) : Bool :=
  let n := c.toNat
  n == 0x09 || (0x20 ≤ n && n ≤ 0x7E) || 0x80 ≤ n

/-- Whether a character may stand in a key without quotes. -/
def isKeyChar (c : Char) : Bool := c.isAlphanum || c == '_' || c == '-'

/-- The end of a line. -/
def newline? : List Char → Option (List Char)
  | '\n' :: s => some s
  | '\r' :: '\n' :: s => some s
  | _ => none

/-- The text behind its leading blanks. -/
def skipBlanks (s : List Char) : List Char := s.dropWhile isBlank

/-- The text behind a comment, if it starts with one. -/
def skipComment (s : List Char) : List Char :=
  if startsWith (· == '#') s then s.dropWhile isPlain else s

/-- The rest of a line, which holds nothing but blanks and a comment, is left out. -/
def lineEnd? (s : List Char) : Option (List Char) :=
  match skipComment (skipBlanks s) with
  | [] => some []
  | s => newline? s

/-- Leaves out blanks, comments and line ends.  `comment` says that the text starts inside a
    comment. -/
def skipLines : (comment : Bool) → List Char → List Char
  | _, '\n' :: s => skipLines false s
  | _, '\r' :: '\n' :: s => skipLines false s
  | comment, c :: s =>
    if (comment && isPlain c) || isBlank c then skipLines comment s
    else if c = '#' then skipLines true s
    else c :: s
  | _, [] => []

end DesignTokens.Toml
