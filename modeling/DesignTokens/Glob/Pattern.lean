/-
  DesignTokens.Glob.Pattern — patterns over bytes, and which texts they match.

  A pattern matches a whole text.  Matching keeps a mark for every position of the text, in
  front of each byte and behind the last, and moves the marks through the pattern from left to
  right: a position is marked when what has been read of the pattern can end there.  One pass
  over the text per part of the pattern is enough, whatever the pattern.
-/

namespace DesignTokens.Glob

/-! ## §1. Patterns -/

/-- A class of bytes: those in one of the ranges, or those in none of them. -/
structure ByteClass where
  negated : Bool
  ranges : List (UInt8 × UInt8)
deriving Repr, DecidableEq

/-- Whether a byte belongs to the class. -/
def ByteClass.has (k : ByteClass) (b : UInt8) : Bool :=
  (k.ranges.any fun (first, last) => first ≤ b && b ≤ last) != k.negated

/-- The class of one byte. -/
def ByteClass.only (b : UInt8) : ByteClass := ⟨false, [(b, b)]⟩

/-- The class of all bytes. -/
def ByteClass.any : ByteClass := ⟨true, []⟩

/-- The byte that separates the keys of a path. -/
def slash : UInt8 := 47

/-- The class of all bytes but the slash. -/
def ByteClass.inside : ByteClass := ⟨true, [(slash, slash)]⟩

/-- A pattern over bytes. -/
inductive Pattern where
  /-- The empty text. -/
  | empty
  /-- One byte of a class. -/
  | byte (k : ByteClass)
  /-- Any number of bytes of a class. -/
  | run (k : ByteClass)
  | seq (first second : Pattern)
  | alt (first second : Pattern)
deriving Repr, DecidableEq

namespace Pattern

/-- One pattern after the other; an empty one leaves no trace. -/
def andThen : Pattern → Pattern → Pattern
  | .empty, second => second
  | first, .empty => first
  | first, second => .seq first second

/-- Several patterns, one after the other. -/
def inOrder (parts : List Pattern) : Pattern := parts.foldr andThen .empty

/-- One of several patterns; the empty pattern, if there is none. -/
def oneOf : List Pattern → Pattern
  | [] => .empty
  | [only] => only
  | first :: rest => .alt first (oneOf rest)

/-- The bytes of a character, one after the other. -/
def literal (c : Char) : Pattern :=
  inOrder ((String.utf8EncodeChar c).map fun b => .byte (.only b))

/-! ## §2. Matching -/

/-- The marks behind one byte of a class. -/
def shift (k : ByteClass) (text : List UInt8) (marks : List Bool) : List Bool :=
  false :: List.zipWith (fun b marked => marked && k.has b) text marks

/-- The marks behind any number of bytes of a class; `carry` tells whether a run that started
    earlier reaches the first position. -/
def spread (k : ByteClass) (carry : Bool) : List UInt8 → List Bool → List Bool
  | [], marks => [marks.headD false || carry]
  | b :: text, marks =>
    let here := marks.headD false || carry
    here :: spread k (here && k.has b) text marks.tail

/-- The marks behind a pattern. -/
def advance (text : List UInt8) : Pattern → List Bool → List Bool
  | .empty, marks => marks
  | .byte k, marks => shift k text marks
  | .run k, marks => spread k false text marks
  | .seq first second, marks => second.advance text (first.advance text marks)
  | .alt first second, marks =>
    List.zipWith (· || ·) (first.advance text marks) (second.advance text marks)

/-- The mark in front of a text of `length` bytes. -/
def start (length : Nat) : List Bool := true :: List.replicate length false

/-- Whether the pattern matches the whole text. -/
def matchesBytes (p : Pattern) (text : List UInt8) : Bool :=
  (p.advance text (start text.length)).getLastD false

/-- Whether the pattern matches the UTF-8 bytes of a string. -/
def «matches» (p : Pattern) (s : String) : Bool :=
  p.matchesBytes (s.toList.flatMap String.utf8EncodeChar)

end Pattern

end DesignTokens.Glob
