/-
  DesignTokens.Toml.Number — integers and floating-point numbers.

  Single underscores may stand between digits.  A decimal numeral has no zero in front.
  Integers are signed and take 64 bits.  Infinity and what is no number are null, and so is a
  number that is too large below zero; one that is too large above zero is refused.
-/
import DesignTokens.Number.Literal
import DesignTokens.Toml.Char
import DesignTokens.Tree.Basic

namespace DesignTokens.Toml

open Text (Read isHexDigit)

/-! ## §1. Digits -/

/-- Further digits, with single underscores between them. -/
def moreDigits (test : Char → Bool) : List Char → List Char × List Char
  | '_' :: c :: s =>
    if test c then
      let (digits, rest) := moreDigits test s
      (c :: digits, rest)
    else ([], '_' :: c :: s)
  | c :: s =>
    if test c then
      let (digits, rest) := moreDigits test s
      (c :: digits, rest)
    else ([], c :: s)
  | [] => ([], [])

/-- Digits with single underscores between them. -/
def digits? (test : Char → Bool) : Read (List Char)
  | c :: s =>
    if test c then
      let (digits, rest) := moreDigits test s
      some (c :: digits, rest)
    else none
  | [] => none

/-- A sign, if there is one. -/
def sign : List Char → Bool × List Char
  | '-' :: s => (true, s)
  | '+' :: s => (false, s)
  | s => (false, s)

/-- A decimal numeral: zero, or digits that do not start with it. -/
def decimal? : Read (List Char)
  | '0' :: s => some (['0'], s)
  | s => digits? Char.isDigit s

/-! ## §2. Integers -/

/-- Whether an integer takes 64 bits with its sign. -/
def fits (i : Int) : Bool := -Int.pow 2 63 ≤ i && i < Int.pow 2 63

/-- An integer that takes 64 bits. -/
def integerTree? (i : Int) : Option Tree := if fits i then some (.ofInt i) else none

/-- The base that a numeral names. -/
def base? : Read Nat
  | '0' :: 'x' :: s => some (16, s)
  | '0' :: 'o' :: s => some (8, s)
  | '0' :: 'b' :: s => some (2, s)
  | _ => none

/-- An integer. -/
def integer? : Read Tree := fun s =>
  match base? s with
  | some (base, s) => do
    let (digits, rest) ← digits? (fun c => isHexDigit c && Number.digitValue c < base) s
    let tree ← integerTree? (Number.numeralValue base digits)
    return (tree, rest)
  | none => do
    let (negative, s) := sign s
    let (digits, rest) ← decimal? s
    let value : Int := Number.numeralValue 10 digits
    let tree ← integerTree? (if negative then -value else value)
    return (tree, rest)

/-! ## §3. Floating-point numbers -/

/-- The part behind the point. -/
def fraction? : Read (List Char)
  | '.' :: s => digits? Char.isDigit s
  | _ => none

/-- The exponent: whether it is negative, and its digits. -/
def exponent? : Read (Bool × List Char)
  | c :: s =>
    if c = 'e' ∨ c = 'E' then
      let (negative, s) := sign s
      (digits? Char.isDigit s).map fun (digits, rest) => ((negative, digits), rest)
    else none
  | [] => none

/-- A literal with a fraction or an exponent at least. -/
def doubleLiteral? : Read Number.Literal := fun s => do
  let (negative, s) := sign s
  let (whole, s) ← decimal? s
  match fraction? s with
  | some (fraction, s) =>
    match exponent? s with
    | some (exponent, s) => return (⟨negative, whole, some fraction, some exponent⟩, s)
    | none => return (⟨negative, whole, some fraction, none⟩, s)
  | none =>
    let (exponent, s) ← exponent? s
    return (⟨negative, whole, none, some exponent⟩, s)

/-- The words for numbers that are not finite. -/
def notFinite? : Read Tree := fun s =>
  match (sign s).2 with
  | 'i' :: 'n' :: 'f' :: rest | 'n' :: 'a' :: 'n' :: rest => some (.null, rest)
  | _ => none

/-- A floating-point number. -/
def double? : Read Tree := fun s =>
  match doubleLiteral? s with
  | some (literal, rest) =>
    let x := literal.nearest
    if x.isFinite then some (.num (Number.ofFloat x), rest)
    else if literal.negative then some (.null, rest)
    else none
  | none => notFinite? s

end DesignTokens.Toml
