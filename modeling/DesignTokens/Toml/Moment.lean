/-
  DesignTokens.Toml.Moment — dates and times.

  A moment is a date, a time, or both with an optional offset.  Its text has one form: a `T`
  between date and time, a fraction without zeros at its end, and the offset zero as it was
  written.
-/
import DesignTokens.Number.Literal
import DesignTokens.Toml.Char

namespace DesignTokens.Toml

open Text (Read readSome?)

/-! ## §1. Moments -/

/-- A day of the calendar. -/
structure Date where
  year : Nat
  month : Nat
  day : Nat
deriving Repr, DecidableEq

/-- A time of a day. -/
structure Clock where
  hour : Nat
  minute : Nat
  second : Nat
  /-- The digits of the fraction of a second, as far as they count. -/
  fraction : List Char
deriving Repr, DecidableEq

/-- How far a time is from the universal one. -/
inductive Offset where
  | universal
  | minutes (behind : Bool) (count : Nat)
deriving Repr, DecidableEq

/-- A date, a time, or both. -/
structure Moment where
  date : Option Date
  time : Option Clock
  offset : Option Offset
deriving Repr, DecidableEq

/-- Whether a year has a leap day. -/
def isLeapYear (year : Nat) : Bool := year % 4 == 0 && (year % 100 != 0 || year % 400 == 0)

/-- How many days a month has. -/
def daysOfMonth (year month : Nat) : Nat :=
  if month = 2 then if isLeapYear year then 29 else 28
  else if [4, 6, 9, 11].contains month then 30
  else 31

/-! ## §2. Texts -/

/-- A number with zeros in front up to a width. -/
def padded (width n : Nat) : List Char :=
  let digits := Nat.toDigits 10 n
  List.replicate (width - digits.length) '0' ++ digits

/-- The text of a date. -/
def Date.text (d : Date) : List Char :=
  padded 4 d.year ++ '-' :: padded 2 d.month ++ '-' :: padded 2 d.day

/-- The text of a time. -/
def Clock.text (t : Clock) : List Char :=
  let fraction := (t.fraction.reverse.dropWhile (· == '0')).reverse
  padded 2 t.hour ++ ':' :: padded 2 t.minute ++ ':' :: padded 2 t.second
    ++ (if fraction.isEmpty then [] else '.' :: fraction)

/-- The text of an offset. -/
def Offset.text : Offset → List Char
  | .universal => ['Z']
  | .minutes behind count =>
    (if behind && count != 0 then '-' else '+')
      :: padded 2 (count / 60) ++ ':' :: padded 2 (count % 60)

/-- The text of a moment. -/
def Moment.text (m : Moment) : String :=
  let date := (m.date.map Date.text).getD []
  let time := (m.time.map Clock.text).getD []
  let between := if m.date.isSome && m.time.isSome then ['T'] else []
  String.ofList (date ++ between ++ time ++ (m.offset.map Offset.text).getD [])

/-! ## §3. Reading -/

/-- A number of exactly `width` digits in a range. -/
def part? (width least greatest : Nat) : Read Nat := fun s =>
  let digits := s.take width
  let n := Number.numeralValue 10 digits
  if digits.length = width ∧ digits.all Char.isDigit ∧ least ≤ n ∧ n ≤ greatest then
    some (n, s.drop width)
  else none

/-- The text behind a character. -/
def behind? (c : Char) : List Char → Option (List Char)
  | d :: s => if c = d then some s else none
  | [] => none

/-- A date. -/
def date? : Read Date := fun s => do
  let (year, s) ← part? 4 0 9999 s
  let (month, s) ← part? 2 1 12 (← behind? '-' s)
  let (day, s) ← part? 2 1 31 (← behind? '-' s)
  if day ≤ daysOfMonth year month then return (⟨year, month, day⟩, s) else none

/-- How many digits of a fraction count. -/
def fractionDigits : Nat := 9

/-- A time. -/
def clock? : Read Clock := fun s => do
  let (hour, s) ← part? 2 0 23 s
  let (minute, s) ← part? 2 0 59 (← behind? ':' s)
  let (second, s) ← part? 2 0 60 (← behind? ':' s)
  match (behind? '.' s).bind (readSome? Char.isDigit) with
  | some (digits, rest) => return (⟨hour, minute, second, digits.take fractionDigits⟩, rest)
  | none => return (⟨hour, minute, second, []⟩, s)

/-- An offset. -/
def offset? : Read Offset
  | c :: s =>
    if c = 'Z' ∨ c = 'z' then some (.universal, s)
    else if c = '+' ∨ c = '-' then do
      let (hours, s) ← part? 2 0 23 s
      let (minutes, s) ← part? 2 0 59 (← behind? ':' s)
      return (.minutes (c == '-') (hours * 60 + minutes), s)
    else none
  | [] => none

/-- A time with an offset behind the character that separates them from a date. -/
def clockBehindDate? : Read (Clock × Option Offset)
  | c :: s =>
    if c = 'T' ∨ c = 't' ∨ c = ' ' then do
      let (time, s) ← clock? s
      match offset? s with
      | some (offset, s) => return ((time, some offset), s)
      | none => return ((time, none), s)
    else none
  | [] => none

/-- A moment. -/
def moment? : Read Moment := fun s =>
  match date? s with
  | some (date, s) =>
    match clockBehindDate? s with
    | some ((time, offset), s) => some (⟨some date, some time, offset⟩, s)
    | none => some (⟨some date, none, none⟩, s)
  | none => (clock? s).map fun (time, s) => (⟨none, some time, none⟩, s)

end DesignTokens.Toml
