/-
  DesignTokens.Toml.Quoted — strings in quotes, on one line or on several.

  Between double quotes a backslash starts an escape.  Three quotes enclose a string of several
  lines: a line end directly behind the opening quotes is dropped, and one or two quotes may
  stand in the string, also in front of the closing ones.
-/
import DesignTokens.Number.Literal
import DesignTokens.Toml.Char

namespace DesignTokens.Toml

open Text (Read isHexDigit)

/-! ## §1. Escapes -/

/-- The character that an escape of one letter stands for. -/
def letterEscape? : Char → Option Char
  | 'b' => some (Char.ofNat 8)
  | 't' => some '\t'
  | 'n' => some '\n'
  | 'f' => some (Char.ofNat 12)
  | 'r' => some '\r'
  | '"' => some '"'
  | '\\' => some '\\'
  | _ => none

/-- The character with a code that is written in hexadecimal digits. -/
def coded? (width : Nat) : Read Char := fun s =>
  let digits := s.take width
  let code := Number.numeralValue 16 digits
  if digits.length = width ∧ digits.all isHexDigit then
    if h : code.isValidChar then some (Char.ofNatAux code h, s.drop width) else none
  else none

/-- An escape behind its backslash. -/
def escape? : Read Char
  | 'u' :: s => coded? 4 s
  | 'U' :: s => coded? 8 s
  | c :: s => (letterEscape? c).map fun d => (d, s)
  | [] => none

/-! ## §2. Strings of one line -/

/-- A string behind its opening apostrophe. -/
def literal? : Read (List Char)
  | [] => none
  | c :: s =>
    if c = '\'' then some ([], s)
    else if isPlain c then (literal? s).map fun (text, rest) => (c :: text, rest)
    else none

/-- The text up to the closing quote. -/
def basicBody? : Nat → Read (List Char)
  | 0, _ => none
  | _ + 1, [] => none
  | _ + 1, '"' :: s => some ([], s)
  | bound + 1, '\\' :: s => do
    let (c, s) ← escape? s
    let (text, rest) ← basicBody? bound s
    return (c :: text, rest)
  | bound + 1, c :: s =>
    if isPlain c then (basicBody? bound s).map fun (text, rest) => (c :: text, rest) else none

/-- A string behind its opening quote. -/
def basic? : Read (List Char) := fun s => basicBody? (s.length + 1) s

/-! ## §3. Strings of several lines -/

/-- Quotes in a string of several lines: those that belong to the text, and the text behind the
    closing ones, if there are enough to close it. -/
def quoteRun (quote : Char) (s : List Char) : List Char × Option (List Char) × List Char :=
  let count := (s.takeWhile (· == quote)).length
  if count < 3 then (s.take count, none, s.drop count)
  else
    let inner := min (count - 3) 2
    (s.take inner, some (s.drop (inner + 3)), [])

/-- The text behind a backslash that drops the end of its line, and all blanks and line ends
    behind it. -/
def joinedLine? (s : List Char) : Option (List Char) :=
  (newline? (skipBlanks s)).map (List.dropWhile fun c => isBlank c || c == '\n' || c == '\r')

/-- The text up to the closing quotes; `escapes` says whether a backslash is special. -/
def multilineBody? (quote : Char) (escapes : Bool) : Nat → Read (List Char)
  | 0, _ => none
  | _ + 1, [] => none
  | bound + 1, c :: s =>
    if c = quote then
      match quoteRun quote (c :: s) with
      | (inner, some rest, _) => some (inner, rest)
      | (inner, none, rest) =>
        (multilineBody? quote escapes bound rest).map fun (text, rest) => (inner ++ text, rest)
    else if escapes && c == '\\' then
      match joinedLine? s with
      | some rest => multilineBody? quote escapes bound rest
      | none => do
        let (d, s) ← escape? s
        let (text, rest) ← multilineBody? quote escapes bound s
        return (d :: text, rest)
    else match newline? (c :: s) with
      | some rest =>
        (multilineBody? quote escapes bound rest).map fun (text, rest) => ('\n' :: text, rest)
      | none =>
        if isPlain c then
          (multilineBody? quote escapes bound s).map fun (text, rest) => (c :: text, rest)
        else none

/-- A string of several lines behind its opening quotes. -/
def multiline? (quote : Char) (escapes : Bool) : Read (List Char) := fun s =>
  multilineBody? quote escapes (s.length + 1) ((newline? s).getD s)

/-- A string of any kind. -/
def string? : Read String := fun s =>
  let found := match s with
    | '"' :: '"' :: '"' :: s => multiline? '"' true s
    | '"' :: s => basic? s
    | '\'' :: '\'' :: '\'' :: s => multiline? '\'' false s
    | '\'' :: s => literal? s
    | _ => none
  found.map fun (text, rest) => (String.ofList text, rest)

end DesignTokens.Toml
