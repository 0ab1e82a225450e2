/-
  DesignTokens.Yaml.Schema — what a scalar stands for.

  A plain scalar is null, a boolean, a number or a string by its text alone.  Digits with a zero
  in front are a string, and so are the words for infinity and for what is no number, unless a
  point stands in front of them.  A tag may ask for one of these kinds.
-/
import DesignTokens.Number.Literal
import DesignTokens.Text.Reading
import DesignTokens.Tree.Basic

namespace DesignTokens.Yaml

open Text (Read isHexDigit)

/-! ## §1. Null and booleans -/

/-- The words for null. -/
def isNull (s : String) : Bool := ["null", "Null", "NULL", "~"].contains s

/-- A boolean. -/
def bool? (s : String) : Option Bool :=
  if ["true", "True", "TRUE"].contains s then some true
  else if ["false", "False", "FALSE"].contains s then some false
  else none

/-! ## §2. Integers -/

/-- A text without a plus sign in front. -/
def withoutPlus : List Char → List Char
  | '+' :: s => s
  | s => s

/-- Whether a text starts with a sign. -/
def isSigned : List Char → Bool
  | c :: _ => c == '+' || c == '-'
  | [] => false

/-- Whether a text is digits with a zero in front. -/
def hasLeadingZero (s : List Char) : Bool :=
  match if isSigned s then s.tail else s with
  | '0' :: c :: rest => (c :: rest).all Char.isDigit
  | _ => false

/-- The value of a numeral in a base. -/
def numeral? (base : Nat) (digits : List Char) : Option Nat :=
  let isDigitOf (c : Char) : Bool := isHexDigit c && Number.digitValue c < base
  if !digits.isEmpty && digits.all isDigitOf then some (Number.numeralValue base digits)
  else none

/-- The base that a numeral names, and its digits. -/
def basedDigits : List Char → Nat × List Char
  | '0' :: 'x' :: digits => (16, digits)
  | '0' :: 'o' :: digits => (8, digits)
  | '0' :: 'b' :: digits => (2, digits)
  | digits => (10, digits)

/-- An integer: an optional sign, and a numeral. -/
def integer? (s : List Char) : Option Int :=
  if hasLeadingZero s then none
  else match s with
    | '-' :: s =>
      let (base, digits) := basedDigits s
      (numeral? base digits).map fun n => -(n : Int)
    | s =>
      let (base, digits) := basedDigits (withoutPlus s)
      (numeral? base digits).map fun n => (n : Int)

/-- Whether an integer takes at most 128 bits. -/
def fitsWide (i : Int) : Bool := -Int.pow 2 127 ≤ i && i < Int.pow 2 128

/-! ## §3. Doubles -/

/-- The exponent at the end of a literal, if there is one. -/
def exponent? : List Char → Option (Option (Bool × List Char))
  | [] => some none
  | c :: s =>
    if c = 'e' ∨ c = 'E' then
      let negative := s.head? == some '-'
      let digits := if isSigned s then s.tail else s
      if !digits.isEmpty && digits.all Char.isDigit then some (some (negative, digits)) else none
    else none

/-- A decimal literal without sign.  It needs a digit on one side of the point at least. -/
def literal? (negative : Bool) (s : List Char) : Option Number.Literal := do
  let (whole, s) := Text.readRun Char.isDigit s
  let (fraction, s) := match s with
    | '.' :: s => Text.readRun Char.isDigit s
    | s => ([], s)
  if whole.isEmpty && fraction.isEmpty then none
  let exponent ← exponent? s
  return { negative, whole, fraction := some fraction, exponent }

/-- A double.  The outer option says whether the text is one, the inner whether it is finite;
    a decimal that is too large is no double. -/
def double? (s : List Char) : Option (Option Float) := do
  if s.head? = some '+' ∧ isSigned s.tail then none
  let unsigned := if isSigned s then s.tail else s
  let text := String.ofList unsigned
  if [".inf", ".Inf", ".INF"].contains text then return none
  if !isSigned s && [".nan", ".NaN", ".NAN"].contains text then return none
  let literal ← literal? (s.head? = some '-') unsigned
  let x := literal.nearest
  if x.isFinite then return some x else none

/-- The tree of a double; only finite ones are numbers. -/
def doubleTree (x : Option Float) : Tree :=
  match x with
  | some x => .num (Number.ofFloat x)
  | none => .null

/-! ## §4. Scalars -/

/-- An integer as a tree.  Nothing, if no integer of 64 bits is that large. -/
def integerTree? (i : Int) : Option Tree :=
  if Number.holdsInt i then some (.ofInt i) else none

/-- What a plain scalar without tag stands for.  An integer that takes more than 64 bits but no
    more than 128 is refused, a larger one is a double. -/
def plain? (s : String) : Option Tree :=
  let text := s.toList
  if s = "" ∨ isNull s then some .null
  else match bool? s, (integer? text).filter fitsWide with
    | some b, _ => some (.bool b)
    | none, some i => integerTree? i
    | none, none =>
      if hasLeadingZero text then some (.str s)
      else some (((double? text).map doubleTree).getD (.str s))

/-- What a scalar with a tag stands for.  Tags of the text's own are refused. -/
def tagged? (tag s : String) : Option Tree :=
  if tag = "tag:yaml.org,2002:bool" then (bool? s).map .bool
  else if tag = "tag:yaml.org,2002:int" then
    ((integer? s.toList).filter fitsWide).bind integerTree?
  else if tag = "tag:yaml.org,2002:float" then (double? s.toList).map doubleTree
  else if tag = "tag:yaml.org,2002:null" then if isNull s then some .null else none
  else if tag.toList.head? = some '!' then none
  else some (.str s)

end DesignTokens.Yaml
