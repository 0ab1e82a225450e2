/-
  DesignTokens.Edit.Position — segments of a path as positions of an array.

  A segment that meets an array is a position when it is the shortest decimal numeral of a
  64-bit number, or a dash, which stands for the end of the array.  A position may be that of
  an item or the one just behind the last item; no spelling but the shortest is accepted, so
  two segments other than the dash never name the same item.
-/
import DesignTokens.Edit.Basic
import DesignTokens.Number.Literal

namespace DesignTokens.Edit

/-- The number that a shortest decimal numeral stands for. -/
def shortestNumeral? : List Char → Option Nat
  | ['0'] => some 0
  | c :: digits =>
    if c.isDigit ∧ c ≠ '0' ∧ digits.all Char.isDigit then
      some (Number.numeralValue 10 (c :: digits))
    else none
  | [] => none

/-- The positions of an array are 64-bit numbers. -/
def positionBound : Nat := Nat.pow 2 64

/-- The position that a segment names in an array of `length` items.  The failure names the
    place, which is the path up to and with the segment. -/
def position (place : Pointer) (segment : String) (length : Nat) : Except EditError Nat :=
  if segment = "-" then .ok length
  else
    match shortestNumeral? segment.toList with
    | none => .error (.invalidIndex place segment)
    | some index =>
      if positionBound ≤ index then .error (.invalidIndex place segment)
      else if length < index then .error (.indexOutOfRange place index length)
      else .ok index

end DesignTokens.Edit
