/-
  DesignTokens.Toml.Printer — strings and fields as TOML writes them.

  A string is written in the plainest way that can hold it: between double quotes if nothing in
  it must be escaped, else between single quotes, else on several lines, and with escapes only
  if it must.
-/
import DesignTokens.Toml.Char

namespace DesignTokens.Toml

/-! ## §1. Styles -/

/-- The ways to write a string. -/
inductive StringStyle where
  | basic
  | literal
  | basicLines
  | literalLines
deriving Repr, DecidableEq

/-- Whether a character can only be written by its code, or by a letter behind a backslash. -/
def isCoded (c : Char) : Bool :=
  (c.toNat < 32 && c != '\t' && c != '\n') || c.toNat == 127

/-- The length of the longest run of a character. -/
def longestRun (c : Char) : (current : Nat) → List Char → Nat
  | current, [] => current
  | current, d :: s =>
    if d = c then longestRun c (current + 1) s else max current (longestRun c 0 s)

/-- The way to write a string. -/
def styleOf (s : List Char) : StringStyle :=
  let coded := s.any isCoded
  let escaped := s.contains '\\'
  let broken := s.contains '\n'
  let quotes := longestRun '"' 0 s
  let apostrophes := longestRun '\'' 0 s
  if !coded && !escaped && quotes = 0 && !broken then .basic
  else if !coded && apostrophes = 0 && !broken then .literal
  else if !coded && !escaped && quotes ≤ 2 then .basicLines
  else if !coded && apostrophes ≤ 2 then .literalLines
  else if broken then .basicLines
  else .basic

/-! ## §2. Texts -/

/-- A code in four hexadecimal digits. -/
def fourDigits (n : Nat) : List Char :=
  let digits := (Nat.toDigits 16 n).map Char.toUpper
  List.replicate (4 - digits.length) '0' ++ digits

/-- A character between double quotes, the quote itself apart. -/
def escapedChar (lines : Bool) (c : Char) : List Char :=
  if c = '\\' then ['\\', '\\']
  else if c.toNat = 8 then ['\\', 'b']
  else if c = '\t' then ['\\', 't']
  else if c = '\n' then if lines then ['\n'] else ['\\', 'n']
  else if c.toNat = 12 then ['\\', 'f']
  else if c = '\r' then ['\\', 'r']
  else if isCoded c then '\\' :: 'u' :: fourDigits c.toNat
  else [c]

/-- The characters between double quotes.  On several lines two quotes in a row stand for
    themselves; `run` counts those in front of the text. -/
def escapedText (lines : Bool) : (run : Nat) → List Char → List Char
  | _, [] => []
  | run, c :: s =>
    if c = '"' then
      if lines && run < 2 then '"' :: escapedText lines (run + 1) s
      else '\\' :: '"' :: escapedText lines 0 s
    else escapedChar lines c ++ escapedText lines 0 s

/-- A string as it is written. -/
def stringText (s : String) : String :=
  let text := s.toList
  let start := if text.contains '\n' then ['\n'] else []
  String.ofList <|
    match styleOf text with
    | .basic => '"' :: escapedText false 0 text ++ ['"']
    | .literal => '\'' :: text ++ ['\'']
    | .basicLines => ['"', '"', '"'] ++ start ++ escapedText true 0 text ++ ['"', '"', '"']
    | .literalLines => ['\'', '\'', '\''] ++ start ++ text ++ ['\'', '\'', '\'']

/-- A field on a line of its own. -/
def fieldLine (key value : String) : String := key ++ " = " ++ stringText value ++ "\n"

end DesignTokens.Toml
