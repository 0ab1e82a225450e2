/-
  DesignTokens.Number.Shortest — the fewest decimal digits that read back as a double.

  A finite double is `m · 2^q`.  Every real number in the interval around it reads back as the
  same double; the ends of the interval belong to it when `m` is even.  For one digit, two
  digits, and so on, the two neighbours of the value on that decimal grid are tested in exact
  arithmetic.  The first grid that has a neighbour in the interval wins, and of two neighbours
  the nearer one, an exact tie going to the even digit.

  If any point of a grid lies in the interval, so does one of the two neighbours, which is why
  testing the neighbours is enough.
-/

namespace DesignTokens.Number

/-! ## §1. Doubles as dyadic numbers -/

/-- A positive dyadic number `mantissa · 2^exponent` with the shape of its rounding interval:
    below a power of two the gap to the next smaller double is half as wide. -/
structure Dyadic where
  mantissa : Nat
  exponent : Int
  /-- Whether the gap below is half the gap above. -/
  narrowBelow : Bool
deriving Repr, DecidableEq

/-- Whether the sign bit is set. -/
def isNegative (bits : UInt64) : Bool := bits >>> 63 == 1

/-- Whether the bits are those of `0.0` or `-0.0`. -/
def isZero (bits : UInt64) : Bool := bits <<< 1 == 0

/-- The magnitude of the finite double with these bits. -/
def Dyadic.ofBits (bits : UInt64) : Dyadic :=
  let fraction := (bits &&& 0xFFFFFFFFFFFFF).toNat
  let biased := (bits >>> 52 &&& 0x7FF).toNat
  if biased = 0 then
    { mantissa := fraction, exponent := -1074, narrowBelow := false }
  else
    { mantissa := fraction + Nat.pow 2 52, exponent := biased - 1075
      narrowBelow := fraction == 0 && 1 < biased }

/-! ## §2. The search -/

/-- Both sides of a comparison of `c · 10^p` with `x · 2^q`, cleared of denominators: the
    factors to put on `c` and on `x`. -/
def commonScale (p q : Int) : Nat × Nat :=
  (Nat.pow 10 p.toNat * Nat.pow 2 (-q).toNat, Nat.pow 2 q.toNat * Nat.pow 10 (-p).toNat)

/-- The exponent of the leading decimal digit of `x · 2^q`, for `0 < x`. -/
def leadingExponent (x : Nat) (q : Int) : Int :=
  -- `30103 / 100000` is just above `log 2 / log 10`, so the estimate is at most one too small
  let estimate := Int.fdiv ((x.log2 + q) * 30103) 100000
  let (c, u) := commonScale (estimate + 1) q
  if c ≤ x * u then estimate + 1 else estimate

/-- The point of the grid `10^p` that stands for the double, if one lies in its interval. -/
def Dyadic.gridPoint? (d : Dyadic) (p : Int) : Option Nat :=
  let (c, u) := commonScale p (d.exponent - 2)
  let value := 4 * d.mantissa * u
  let low := (4 * d.mantissa - (if d.narrowBelow then 1 else 2)) * u
  let high := (4 * d.mantissa + 2) * u
  let inside (k : Nat) : Bool :=
    if d.mantissa % 2 = 0 then low ≤ k * c && k * c ≤ high else low < k * c && k * c < high
  let below := value / c
  match inside below, inside (below + 1) with
  | false, false => none
  | true, false => some below
  | false, true => some (below + 1)
  | true, true =>
    if 2 * value < (2 * below + 1) * c then some below
    else if (2 * below + 1) * c < 2 * value then some (below + 1)
    else some (if below % 2 = 0 then below else below + 1)

/-- A decimal number `digits · 10^exponent`. -/
structure Decimal where
  digits : Nat
  exponent : Int
deriving Repr, DecidableEq

/-- The shortest decimal that reads back as the double.  Seventeen digits are always enough. -/
def Dyadic.shortest (d : Dyadic) : Decimal :=
  let lead := leadingExponent d.mantissa d.exponent
  search lead 17 1
where
  /-- Tries the grids of `count`, `count + 1`, … digits. -/
  search (lead : Int) : Nat → Nat → Decimal
    | 0, count => { digits := 0, exponent := lead - count }
    | tries + 1, count =>
      let p := lead + 1 - count
      match d.gridPoint? p with
      | some digits => { digits, exponent := p }
      | none => search lead tries (count + 1)

end DesignTokens.Number
