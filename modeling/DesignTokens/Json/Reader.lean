/-
  DesignTokens.Json.Reader — reading JSON texts.

  Reading is a recursive descent.  Each step answers what it read and the text that is left,
  or nothing when the text is not JSON.  Containers may nest `deepest` levels; the depth that
  is left is what the recursion descends on, and lists of members are bounded by the length of
  the text they are read from, as each member takes at least one character.

  A repeated key keeps its first place and its last value.
-/
import DesignTokens.Tree.Basic
import DesignTokens.Number.Literal
import DesignTokens.Text.Reading

namespace DesignTokens.Json

open Text (Read readSome? startsWith isHexDigit)

/-- The blanks of JSON. -/
def isGap (c : Char) : Bool := c == ' ' || c == '\n' || c == '\t' || c == '\r'

/-- The text behind its leading blanks. -/
def skipGap (s : List Char) : List Char := s.dropWhile isGap

/-! ## §1. Numbers -/

/-- At least one digit. -/
def digits? : Read (List Char) := readSome? Char.isDigit

/-- The digits in front of the point: a lone zero, or digits that do not start with one. -/
def wholePart? : Read (List Char)
  | '0' :: rest => if startsWith Char.isDigit rest then none else some (['0'], rest)
  | s => digits? s

/-- The part behind the point, if a point follows. -/
def fractionPart? : Read (Option (List Char))
  | '.' :: rest => (digits? rest).map fun (found, left) => (some found, left)
  | s => some (none, s)

/-- The exponent, if one follows. -/
def exponentPart? : Read (Option (Bool × List Char))
  | c :: rest =>
    if c = 'e' ∨ c = 'E' then
      let (negative, unsigned) := match rest with
        | '-' :: t => (true, t)
        | '+' :: t => (false, t)
        | t => (false, t)
      (digits? unsigned).map fun (found, left) => (some (negative, found), left)
    else some (none, c :: rest)
  | [] => some (none, [])

/-- A number. -/
def number? : Read Tree := fun s => do
  let (negative, s) := match s with
    | '-' :: t => (true, t)
    | t => (false, t)
  let (whole, s) ← wholePart? s
  let (fraction, s) ← fractionPart? s
  let (exponent, s) ← exponentPart? s
  let literal : Number.Literal := { negative, whole, fraction, exponent }
  let value ← literal.stepwise
  return (.num value, s)

/-! ## §2. Strings -/

/-- The value of four hexadecimal digits. -/
def hexFour? (a b c d : Char) : Option Nat :=
  if [a, b, c, d].all isHexDigit then some (Number.numeralValue 16 [a, b, c, d]) else none

/-- The character that a simple escape stands for. -/
def simpleEscape? : Char → Option Char
  | '"' => some '"'
  | '\\' => some '\\'
  | '/' => some '/'
  | 'b' => some (Char.ofNat 8)
  | 'f' => some (Char.ofNat 12)
  | 'n' => some '\n'
  | 'r' => some '\r'
  | 't' => some '\t'
  | _ => none

/-- Whether a code unit is the first half of a pair. -/
def isHighHalf (n : Nat) : Bool := 0xD800 ≤ n && n < 0xDC00

/-- Whether a code unit is the second half of a pair. -/
def isLowHalf (n : Nat) : Bool := 0xDC00 ≤ n && n < 0xE000

/-- The characters up to the closing quote; `read` holds those already read, the last first.
    Escaped halves of a pair must stand together, and control characters must be escaped. -/
def stringBody? (read : List Char) : Read String
  | [] => none
  | '"' :: rest => some (String.ofList read.reverse, rest)
  | '\\' :: 'u' :: a :: b :: c :: d :: rest =>
    match hexFour? a b c d with
    | none => none
    | some n =>
      if isHighHalf n then
        match rest with
        | '\\' :: 'u' :: e :: f :: g :: h :: rest =>
          match hexFour? e f g h with
          | none => none
          | some m =>
            if isLowHalf m then
              let c := Char.ofNat (0x10000 + (n - 0xD800) * 0x400 + (m - 0xDC00))
              stringBody? (c :: read) rest
            else none
        | _ => none
      else if isLowHalf n then none
      else stringBody? (Char.ofNat n :: read) rest
  | '\\' :: c :: rest =>
    match simpleEscape? c with
    | none => none
    | some plain => stringBody? (plain :: read) rest
  | c :: rest => if c.toNat < 32 then none else stringBody? (c :: read) rest

/-! ## §3. Members of containers -/

/-- The rest of an array behind an item that `item` reads. -/
def moreItems? (item : Read Tree) : Nat → Read (List Tree)
  | 0, _ => none
  | bound + 1, s =>
    match skipGap s with
    | ']' :: rest => some ([], rest)
    | ',' :: rest => do
      let (first, rest) ← item (skipGap rest)
      let (others, rest) ← moreItems? item bound rest
      return (first :: others, rest)
    | _ => none

/-- The items of an array behind its opening bracket. -/
def items? (item : Read Tree) : Read (List Tree) := fun s =>
  match skipGap s with
  | ']' :: rest => some ([], rest)
  | s => do
    let (first, rest) ← item s
    let (others, rest) ← moreItems? item (rest.length + 1) rest
    return (first :: others, rest)

/-- A key, its colon and its value. -/
def field? (item : Read Tree) : Read (String × Tree)
  | '"' :: s => do
    let (key, rest) ← stringBody? [] s
    match skipGap rest with
    | ':' :: rest => do
      let (value, rest) ← item (skipGap rest)
      return ((key, value), rest)
    | _ => none
  | _ => none

/-- The rest of an object behind a field. -/
def moreFields? (item : Read Tree) : Nat → Read (List (String × Tree))
  | 0, _ => none
  | bound + 1, s =>
    match skipGap s with
    | '}' :: rest => some ([], rest)
    | ',' :: rest => do
      let (first, rest) ← field? item (skipGap rest)
      let (others, rest) ← moreFields? item bound rest
      return (first :: others, rest)
    | _ => none

/-- The fields of an object behind its opening brace. -/
def fields? (item : Read Tree) : Read (List (String × Tree)) := fun s =>
  match skipGap s with
  | '}' :: rest => some ([], rest)
  | s => do
    let (first, rest) ← field? item s
    let (others, rest) ← moreFields? item (rest.length + 1) rest
    return (first :: others, rest)

/-! ## §4. Values -/

/-- How many levels containers may nest. -/
def deepest : Nat := 127

/-- A value that is no container. -/
def scalar? : Read Tree
  | 'n' :: 'u' :: 'l' :: 'l' :: rest => some (.null, rest)
  | 't' :: 'r' :: 'u' :: 'e' :: rest => some (.bool true, rest)
  | 'f' :: 'a' :: 'l' :: 's' :: 'e' :: rest => some (.bool false, rest)
  | '"' :: rest => (stringBody? [] rest).map fun (s, left) => (.str s, left)
  | s => number? s

/-- A value whose containers nest at most `depth` levels. -/
def value? : Nat → Read Tree
  | 0, s => scalar? s
  | depth + 1, '[' :: rest =>
    (items? (value? depth) rest).map fun (items, left) => (.arr items, left)
  | depth + 1, '{' :: rest =>
    (fields? (value? depth) rest).map fun (fields, left) =>
      (.obj (Entries.ofWrites fields), left)
  | _, s => scalar? s

/-- The tree that a JSON text holds. -/
def parse? (s : List Char) : Option Tree :=
  match value? deepest (skipGap s) with
  | some (t, rest) => if (skipGap rest).isEmpty then some t else none
  | none => none

end DesignTokens.Json
