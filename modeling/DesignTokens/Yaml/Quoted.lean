/-
  DesignTokens.Yaml.Quoted — scalars in quotes.

  Between single quotes only the quote itself is special: it is written twice.  Between double
  quotes a backslash starts an escape; in front of a line break it drops the break.  Gaps are
  folded in both, and a line must not start with the mark of a document.
-/
import DesignTokens.Yaml.Gap
import DesignTokens.Number.Literal

namespace DesignTokens.Yaml

open Text (Read isHexDigit)

/-! ## §1. Escapes -/

/-- The character that an escape of one letter stands for. -/
def letterEscape? : Char → Option Char
  | '0' => some (Char.ofNat 0)
  | 'a' => some (Char.ofNat 7)
  | 'b' => some (Char.ofNat 8)
  | 't' | '\t' => some '\t'
  | 'n' => some '\n'
  | 'v' => some (Char.ofNat 11)
  | 'f' => some (Char.ofNat 12)
  | 'r' => some '\r'
  | 'e' => some (Char.ofNat 27)
  | ' ' => some ' '
  | '"' => some '"'
  | '/' => some '/'
  | '\\' => some '\\'
  | 'N' => some (Char.ofNat 0x85)
  | '_' => some (Char.ofNat 0xA0)
  | 'L' => some (Char.ofNat 0x2028)
  | 'P' => some (Char.ofNat 0x2029)
  | _ => none

/-- How many hexadecimal digits follow the letter of an escape. -/
def hexEscape? : Char → Option Nat
  | 'x' => some 2
  | 'u' => some 4
  | 'U' => some 8
  | _ => none

/-- The character with a code, if there is one. -/
def charOfCode? (code : Nat) : Option Char :=
  if h : code.isValidChar then some (Char.ofNatAux code h) else none

/-- An escape behind its backslash. -/
def escape? : Read Char
  | [] => none
  | c :: s =>
    match letterEscape? c, hexEscape? c with
    | some plain, _ => some (plain, s)
    | none, some width =>
      let digits := s.take width
      if digits.length = width ∧ digits.all isHexDigit then
        (charOfCode? (Number.numeralValue 16 digits)).map fun d => (d, s.drop width)
      else none
    | none, none => none

/-! ## §2. The two kinds of quotes -/

/-- The text up to the closing single quote. -/
def singleBody? : Nat → Read (List Char)
  | 0, _ => none
  | _ + 1, [] => none
  | bound + 1, '\'' :: '\'' :: s =>
    (singleBody? bound s).map fun (text, rest) => ('\'' :: text, rest)
  | _ + 1, '\'' :: s => some ([], s)
  | bound + 1, c :: s =>
    if isGap c then
      let (gap, rest) := Gap.read (c :: s)
      if gap.leadsToMarker rest then none
      else (singleBody? bound rest).map fun (text, left) => (gap.text ++ text, left)
    else (singleBody? bound s).map fun (text, rest) => (c :: text, rest)

/-- The text up to the closing double quote. -/
def doubleBody? : Nat → Read (List Char)
  | 0, _ => none
  | _ + 1, [] => none
  | _ + 1, '"' :: s => some ([], s)
  | bound + 1, '\\' :: s =>
    if s.head?.any isBreak then
      let (gap, rest) := Gap.read s
      if gap.leadsToMarker rest then none
      else (doubleBody? bound rest).map fun (text, left) => (gap.breaks.tail ++ text, left)
    else do
      let (c, rest) ← escape? s
      let (text, rest) ← doubleBody? bound rest
      return (c :: text, rest)
  | bound + 1, c :: s =>
    if isGap c then
      let (gap, rest) := Gap.read (c :: s)
      if gap.leadsToMarker rest then none
      else (doubleBody? bound rest).map fun (text, left) => (gap.text ++ text, left)
    else (doubleBody? bound s).map fun (text, rest) => (c :: text, rest)

/-- A scalar behind its opening single quote. -/
def singleQuoted? : Read (List Char) := fun s => singleBody? (s.length + 1) s

/-- A scalar behind its opening double quote. -/
def doubleQuoted? : Read (List Char) := fun s => doubleBody? (s.length + 1) s

end DesignTokens.Yaml
