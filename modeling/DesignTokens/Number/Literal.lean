/-
  DesignTokens.Number.Literal — the number that a decimal literal stands for.

  Two readings are in use.  `Literal.stepwise` keeps the digits that fit into 64 bits, lets the
  others move the exponent only, and scales by one power of ten; it rounds up to twice, so it
  may miss the nearest double by a unit.  `Literal.nearest` is the nearest double.  JSON texts
  are read stepwise, the other formats exactly.
-/
import DesignTokens.Number.Basic

namespace DesignTokens.Number

/-! ## §1. Literals -/

/-- The parts of a decimal literal. -/
structure Literal where
  negative : Bool
  /-- The digits in front of the point. -/
  whole : List Char
  /-- The digits behind the point, if there is one. -/
  fraction : Option (List Char)
  /-- The exponent, if one is written: whether it is negative, and its digits. -/
  exponent : Option (Bool × List Char)
deriving Repr, DecidableEq

/-- The value of a digit, letters counting on from ten in either case. -/
def digitValue (c : Char) : Nat :=
  if c.isDigit then c.toNat - '0'.toNat
  else if 'a' ≤ c ∧ c ≤ 'z' then c.toNat - 'a'.toNat + 10
  else if 'A' ≤ c ∧ c ≤ 'Z' then c.toNat - 'A'.toNat + 10
  else 0

/-- The value of a numeral in the given base. -/
def numeralValue (base : Nat) (digits : List Char) : Nat :=
  digits.foldl (fun n c => n * base + digitValue c) 0

/-- The exponent as a signed number. -/
def Literal.power (l : Literal) : Int :=
  match l.exponent with
  | none => 0
  | some (negative, digits) =>
    if negative then -(numeralValue 10 digits : Int) else numeralValue 10 digits

/-- A double with the given sign. -/
def signed (negative : Bool) (x : Float) : Float := if negative then -x else x

/-! ## §2. The stepwise reading -/

/-- The greatest significand that is kept. -/
def greatestSignificand : Nat := Nat.pow 2 64 - 1

/-- Reads digits onto a significand as long as it fits: the significand, and how many digits
    were read. -/
def accumulate (significand : Nat) : List Char → Nat × Nat
  | [] => (significand, 0)
  | c :: digits =>
    let next := significand * 10 + digitValue c
    if greatestSignificand < next then (significand, 0)
    else
      let (total, count) := accumulate next digits
      (total, count + 1)

/-- The double nearest to a power of ten that a double can hold. -/
def powerOfTen (n : Nat) : Float := Float.ofScientific 1 false n

/-- The greatest power of ten that a double can hold. -/
def greatestPower : Nat := 308

/-- A double divided by `10^n`.  A power that no double can hold is divided away in steps, and
    the steps stop once nothing is left. -/
def dividedByPower (x : Float) (n : Nat) : Float :=
  if n ≤ greatestPower then x / powerOfTen n
  else if x == 0 then x
  else dividedByPower (x / powerOfTen greatestPower) (n - greatestPower)
termination_by n
decreasing_by simp only [greatestPower] at *; omega

/-- A significand scaled by a power of ten, or nothing when no double is that large. -/
def scaled? (significand : Nat) (power : Int) : Option Float :=
  let x := significand.toUInt64.toFloat
  if 0 ≤ power then
    if power.toNat ≤ greatestPower then
      let y := x * powerOfTen power.toNat
      if y.isInf then none else some y
    else if significand = 0 then some x
    else none
  else some (dividedByPower x power.natAbs)

/-- The greatest exponent that is taken at its value; beyond it a literal is zero or nothing. -/
def greatestExponent : Nat := Nat.pow 2 31 - 1

/-- The number that a literal stands for when its digits are kept in 64 bits.  Nothing, if it is
    too large. -/
def Literal.stepwise (l : Literal) : Option Number :=
  let (head, taken) := accumulate 0 l.whole
  let dropped := l.whole.length - taken
  if l.fraction = none ∧ l.exponent = none ∧ dropped = 0 then
    if !l.negative then some (.int head)
    else if 0 < head ∧ head ≤ Nat.pow 2 63 then some (.int (-head))
    else some (ofFloat (-head.toUInt64.toFloat))
  else
    let (significand, places) := accumulate head (l.fraction.getD [])
    let start : Int := dropped - places
    if l.power.natAbs ≤ greatestExponent then
      (scaled? significand (start + l.power)).map (fun x => ofFloat (signed l.negative x))
    else if significand ≠ 0 ∧ 0 < l.power then none
    else some (ofFloat (signed l.negative 0))

/-! ## §3. The nearest double -/

/-- The double nearest to `digits · 10^power`.  Numbers beyond every double are infinite, and
    those below half the least double are zero, which keeps the powers of ten small. -/
def nearestDouble (digits : Nat) (power : Int) : Float :=
  let size := (Nat.toDigits 10 digits).length + power
  if digits = 0 ∨ size < -330 then 0
  else if 310 < size then 1 / 0
  else Float.ofScientific digits (power < 0) power.natAbs

/-- The double nearest to what the literal denotes. -/
def Literal.nearest (l : Literal) : Float :=
  let fraction := l.fraction.getD []
  signed l.negative
    (nearestDouble (numeralValue 10 (l.whole ++ fraction)) (l.power - fraction.length))

end DesignTokens.Number
