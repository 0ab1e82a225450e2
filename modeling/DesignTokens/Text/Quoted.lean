/-
  DesignTokens.Text.Quoted — texts in quotes that show every character.

  The quote and the backslash are written behind a backslash, four controls have letters of
  their own, and every other character that is not shown is written as its code point in
  hexadecimal digits between braces.
-/
import DesignTokens.Text.Unprintable

namespace DesignTokens.Text

/-- How a character is written between quotes. -/
def quotedChar (c : Char) : List Char :=
  if c = '"' then ['\\', '"']
  else if c = '\\' then ['\\', '\\']
  else if c = '\n' then ['\\', 'n']
  else if c = '\r' then ['\\', 'r']
  else if c = '\t' then ['\\', 't']
  else if c.toNat = 0 then ['\\', '0']
  else if isUnprintable c then ['\\', 'u', '{'] ++ Nat.toDigits 16 c.toNat ++ ['}']
  else [c]

/-- A text in quotes. -/
def quoted (s : String) : String :=
  String.ofList ('"' :: s.toList.flatMap quotedChar ++ ['"'])

end DesignTokens.Text
