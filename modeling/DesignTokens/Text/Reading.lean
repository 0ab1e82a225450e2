/-
  DesignTokens.Text.Reading — reading a text from its front.
-/

namespace DesignTokens.Text

/-- A reading step takes a part off the front of a text: it answers what it read and the text
    that is left, or nothing. -/
abbrev Read (α : Type) := List Char → Option (α × List Char)

/-- The longest run of characters that pass the test, and the text behind it. -/
def readRun (test : Char → Bool) (s : List Char) : List Char × List Char :=
  (s.takeWhile test, s.dropWhile test)

/-- The longest run of characters that pass the test, if there is one at all. -/
def readSome? (test : Char → Bool) : Read (List Char) := fun s =>
  match readRun test s with
  | ([], _) => none
  | found => some found

/-- Whether a text starts with a character that passes the test. -/
def startsWith (test : Char → Bool) (s : List Char) : Bool := s.head?.any test

/-- Whether a character is a hexadecimal digit. -/
def isHexDigit (c : Char) : Bool :=
  c.isDigit || ('a' ≤ c && c ≤ 'f') || ('A' ≤ c && c ≤ 'F')

end DesignTokens.Text
