/-
  DesignTokens.Number.Basic — the numbers of a document and their text.

  A number is an integer or a double, and which of the two it is belongs to the value: `1` and
  `1.0` differ.  A double is kept as its bits, so equality of numbers is equality of what was
  written, and a double that is equal to an integer is still a double.

  A double is written with the fewest digits that read back, positionally when the leading digit
  has an exponent from `-5` to `15`, else in scientific form.
-/
import DesignTokens.Number.Shortest

namespace DesignTokens

/-- A number of a document. -/
inductive Number where
  /-- An integer.  Documents hold those from `-2^63` to `2^64 - 1`. -/
  | int (value : Int)
  /-- A double, as its bits. -/
  | double (bits : UInt64)
deriving Repr, DecidableEq, Inhabited

namespace Number

/-! ## §1. Making numbers -/

/-- The number that holds a double. -/
def ofFloat (x : Float) : Number := .double x.toBits

/-- The least integer that a document can hold. -/
def leastInt : Int := -Int.pow 2 63

/-- The greatest integer that a document can hold. -/
def greatestInt : Int := Int.pow 2 64 - 1

/-- Whether an integer is one that a document can hold. -/
def holdsInt (i : Int) : Bool := leastInt ≤ i && i ≤ greatestInt

/-! ## §2. The text of a double -/

/-- A run of zeros. -/
def zeros (count : Nat) : List Char := List.replicate count '0'

/-- Digits without the zeros at their end. -/
def significant (digits : List Char) : List Char :=
  (digits.reverse.dropWhile (· == '0')).reverse

/-- A positional numeral, always with a digit on both sides of the point. -/
def positional (digits : List Char) (lead : Int) : List Char :=
  if lead < 0 then ['0', '.'] ++ zeros (-lead - 1).toNat ++ digits
  else
    let whole := lead.toNat + 1
    if digits.length ≤ whole then digits ++ zeros (whole - digits.length) ++ ['.', '0']
    else digits.take whole ++ '.' :: digits.drop whole

/-- A numeral in scientific form; the sign of the exponent is always written. -/
def scientific (digits : List Char) (lead : Int) : List Char :=
  let mantissa := match digits with
    | d :: e :: rest => d :: '.' :: e :: rest
    | _ => digits
  let sign := if lead < 0 then '-' else '+'
  mantissa ++ 'e' :: sign :: Nat.toDigits 10 lead.natAbs

/-- The text of a positive decimal number. -/
def magnitudeText (d : Decimal) : List Char :=
  let digits := Nat.toDigits 10 d.digits
  let lead := d.exponent + digits.length - 1
  if -5 ≤ lead && lead ≤ 15 then positional (significant digits) lead
  else scientific (significant digits) lead

/-- The text of a finite double. -/
def doubleText (bits : UInt64) : String :=
  let magnitude :=
    if isZero bits then ['0', '.', '0'] else magnitudeText (Dyadic.ofBits bits).shortest
  String.ofList (if isNegative bits then '-' :: magnitude else magnitude)

/-! ## §3. The text of a number -/

/-- The text of a number, the same wherever a number is written. -/
def text : Number → String
  | .int value => toString value
  | .double bits => doubleText bits

end Number

end DesignTokens
