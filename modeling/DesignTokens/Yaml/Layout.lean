/-
  DesignTokens.Yaml.Layout — from characters to tokens.

  Outside of brackets, collections are bounded by indentation: a block is open from the first
  token at its column to the first token at a lesser one.  Whether a word is a key shows only at
  the colon behind it, so the place of a possible key is remembered, and the tokens that start
  the key are put there once the colon is found.  A possible key must be followed by its colon
  on its line within 1024 characters; a word at the column of the open block is a key that must
  have its colon.
-/
import DesignTokens.Yaml.Block
import DesignTokens.Yaml.Label
import DesignTokens.Yaml.Plain

namespace DesignTokens.Yaml

open Text (Read startsWith)

/-! ## §1. Positions -/

/-- The text that is left, and where it starts. -/
structure Cursor where
  rest : List Char
  line : Nat
  column : Nat
deriving Repr

namespace Cursor

/-- The position behind a character. -/
def past (c : Cursor) (d : Char) : Cursor :=
  if isBreak d then { c with line := c.line + 1, column := 0 }
  else { c with column := c.column + 1 }

/-- Moves to where `rest` is left, a text at the end of the one that is left now. -/
def moveTo (c : Cursor) (rest : List Char) : Cursor :=
  let read := c.rest.take (c.rest.length - rest.length)
  { read.foldl past c with rest := rest }

end Cursor

/-- A place where a key may have started. -/
structure PossibleKey where
  /-- The number of tokens in front of it. -/
  place : Nat
  line : Nat
  column : Nat
  /-- Whether only a key can stand there. -/
  required : Bool
deriving Repr

/-- How many characters a key may take in front of its colon. -/
def longestKey : Nat := 1024

/-- What is known at a position of the text. -/
structure Layout where
  cursor : Cursor
  /-- The columns of the open blocks, the innermost first. -/
  blocks : List Nat
  /-- The last place where a key may have started. -/
  key : Option PossibleKey
  /-- The same for the text around each open bracket, the innermost first. -/
  outerKeys : List (Option PossibleKey)
  /-- Whether a key may start here. -/
  keyAllowed : Bool
  /-- The tokens so far, the last first. -/
  tokens : List (Token String)
deriving Repr

namespace Layout

/-- Before a text. -/
def start (text : List Char) : Layout :=
  { cursor := ⟨text, 0, 0⟩, blocks := [], key := none, outerKeys := [], keyAllowed := true,
    tokens := [] }

/-! ## §2. Small steps -/

/-- Whether the position is inside brackets. -/
def inFlow (l : Layout) : Bool := !l.outerKeys.isEmpty

/-- The least column that belongs to the innermost block, its own column apart. -/
def margin (l : Layout) : Nat :=
  match l.blocks with
  | [] => 0
  | column :: _ => column + 1

/-- Moves to where `rest` is left. -/
def moveTo (rest : List Char) (l : Layout) : Layout :=
  { l with cursor := l.cursor.moveTo rest }

/-- Adds a token. -/
def emit (token : Token String) (l : Layout) : Layout :=
  { l with tokens := token :: l.tokens }

/-- Puts a token behind the first `place` ones. -/
def emitAt (place : Nat) (token : Token String) (l : Layout) : Layout :=
  { l with tokens := l.tokens.insertIdx (l.tokens.length - place) token }

/-- Allows or forbids a key to start here. -/
def allowKey (allowed : Bool) (l : Layout) : Layout := { l with keyAllowed := allowed }

/-- Closes the blocks whose columns pass the test, from the innermost on.  Inside brackets
    indentation does not count. -/
def closeBlocks (test : Nat → Bool) (l : Layout) : Layout :=
  if l.inFlow then l
  else
    let closed := (l.blocks.takeWhile test).length
    { l with
      blocks := l.blocks.drop closed
      tokens := List.replicate closed .closeBlock ++ l.tokens }

/-- Opens a block, unless one is open at this column or the position is inside brackets.  The
    block starts behind the first `place` tokens. -/
def openBlock (kind : Collection) (column place : Nat) (l : Layout) : Layout :=
  if l.inFlow || column < l.margin then l
  else { l.emitAt place (.openBlock kind) with blocks := column :: l.blocks }

/-- Opens a block at the position. -/
def openBlockHere (kind : Collection) (l : Layout) : Layout :=
  l.openBlock kind l.cursor.column l.tokens.length

/-- Gives up on the possible key. -/
def dropKey? (l : Layout) : Option Layout :=
  if l.key.any (·.required) then none else some { l with key := none }

/-- Remembers the position, where a key may start if it is allowed to. -/
def markKey? (l : Layout) : Option Layout :=
  if l.keyAllowed then do
    let l ← l.dropKey?
    let required := !l.inFlow && l.blocks.head? == some l.cursor.column
    return { l with key := some ⟨l.tokens.length, l.cursor.line, l.cursor.column, required⟩ }
  else some l

/-- Whether the colon of a possible key may stand at the position. -/
def reaches (l : Layout) (k : PossibleKey) : Bool :=
  k.line == l.cursor.line && l.cursor.column ≤ k.column + longestKey

/-! ## §3. Between tokens -/

/-- Leaves out blanks, comments and line breaks.  A line break allows a key outside of brackets;
    where a key may start, tabs are not left out. -/
def skipGap (inFlow : Bool) : (comment allowed : Bool) → List Char → Bool × List Char
  | _, allowed, [] => (allowed, [])
  | comment, allowed, c :: s =>
    if isBreak c then skipGap inFlow false (allowed || !inFlow) s
    else if comment || c == ' ' || (c == '\t' && (inFlow || !allowed)) then
      skipGap inFlow comment allowed s
    else if c = '#' then skipGap inFlow true allowed s
    else (allowed, c :: s)

/-- Moves to the next token and closes the blocks that end in front of it. -/
def nextToken (l : Layout) : Layout :=
  let (allowed, rest) := skipGap l.inFlow false l.keyAllowed l.cursor.rest
  let l := (l.moveTo rest).allowKey allowed
  l.closeBlocks (l.cursor.column < ·)

/-! ## §4. Tokens

Each of these takes the text behind the characters that the token is known by. -/

/-- A declaration at the start of a line. -/
def readDeclaration? (s : List Char) (l : Layout) : Option Layout := do
  let l ← (l.closeBlocks fun _ => true).dropKey?
  let (token, rest) ← declaration? s
  return ((l.allowKey false).moveTo rest).emit token

/-- A mark between documents. -/
def readMarker? (token : Token String) (s : List Char) (l : Layout) : Option Layout := do
  let l ← (l.closeBlocks fun _ => true).dropKey?
  return ((l.allowKey false).moveTo s).emit token

/-- An opening bracket, which may be the start of a key. -/
def readOpen? (kind : Collection) (s : List Char) (l : Layout) : Option Layout := do
  let l ← l.markKey?
  let l := { l with key := none, outerKeys := l.key :: l.outerKeys }
  return ((l.allowKey true).moveTo s).emit (.openFlow kind)

/-- A closing bracket. -/
def readClose? (kind : Collection) (s : List Char) (l : Layout) : Option Layout := do
  let l ← l.dropKey?
  let l := match l.outerKeys with
    | key :: outerKeys => { l with key, outerKeys }
    | [] => l
  return ((l.allowKey false).moveTo s).emit (.closeFlow kind)

/-- A comma. -/
def readComma? (s : List Char) (l : Layout) : Option Layout := do
  let l ← l.dropKey?
  return ((l.allowKey true).moveTo s).emit .comma

/-- The dash in front of an item. -/
def readItem? (s : List Char) (l : Layout) : Option Layout := do
  if !l.inFlow && !l.keyAllowed then none
  let l ← (l.openBlockHere .sequence).dropKey?
  return ((l.allowKey true).moveTo s).emit .item

/-- The question mark in front of a key. -/
def readKey? (s : List Char) (l : Layout) : Option Layout := do
  if !l.inFlow && !l.keyAllowed then none
  let l ← (l.openBlockHere .mapping).dropKey?
  return ((l.allowKey !l.inFlow).moveTo s).emit .key

/-- The colon in front of a value.  If a key reaches up to it, the tokens that start the key are
    put in front of that. -/
def readValue? (s : List Char) (l : Layout) : Option Layout := do
  match l.key.filter l.reaches with
  | some k =>
    let l := (l.emitAt k.place .key).openBlock .mapping k.column k.place
    return (({ l with key := none }.allowKey false).moveTo s).emit .value
  | none =>
    let l ← l.dropKey?
    if !l.inFlow && !l.keyAllowed then none
    let l := l.openBlockHere .mapping
    return ((l.allowKey !l.inFlow).moveTo s).emit .value

/-- A token that a key may start with, read by `read`. -/
def readLabel? (read : Read (Token String)) (s : List Char) (l : Layout) : Option Layout := do
  let l ← l.markKey?
  let (token, rest) ← read s
  return ((l.allowKey false).moveTo rest).emit token

/-- A scalar of whole lines. -/
def readBlockText? (folded : Bool) (s : List Char) (l : Layout) : Option Layout := do
  let l ← l.dropKey?
  let (text, rest) ← blockText? folded l.margin s
  return ((l.allowKey true).moveTo rest).emit (.scalar (String.ofList text) false)

/-- A scalar without quotes. -/
def readPlain? (s : List Char) (l : Layout) : Option Layout := do
  let l ← l.markKey?
  let (plain, rest) ← plainText? l.inFlow l.margin s
  return ((l.allowKey plain.broken).moveTo rest).emit (.scalar (String.ofList plain.text) true)

/-- A scalar that is no plain one as a token. -/
def asScalar (read : Read (List Char)) : Read (Token String) := fun s =>
  (read s).map fun (text, rest) => (.scalar (String.ofList text) false, rest)

/-- A name as a token. -/
def asLabel (token : String → Token String) : Read (Token String) := fun s =>
  (name? s).map fun (name, rest) => (token name, rest)

/-- The token at the position, which is no gap. -/
def token? (l : Layout) : Option Layout :=
  match l.cursor.rest with
  | [] => none
  | c :: s =>
    let atLineStart := l.cursor.column == 0
    if atLineStart && c == '%' then l.readDeclaration? s
    else if atLineStart && atMarker (c :: s) then
      l.readMarker? (if c = '-' then .documentStart else .documentEnd) (s.drop 2)
    else if c = '[' then l.readOpen? .sequence s
    else if c = '{' then l.readOpen? .mapping s
    else if c = ']' then l.readClose? .sequence s
    else if c = '}' then l.readClose? .mapping s
    else if c = ',' then l.readComma? s
    else if c = '-' ∧ atGap s then l.readItem? s
    else if c = '?' ∧ (l.inFlow ∨ atGap s) then l.readKey? s
    else if c = ':' ∧ (l.inFlow ∨ atGap s) then l.readValue? s
    else if c = '*' then l.readLabel? (asLabel .reference) s
    else if c = '&' then l.readLabel? (asLabel .anchor) s
    else if c = '!' then l.readLabel? (tag? l.inFlow) s
    else if c = '|' ∧ !l.inFlow then l.readBlockText? false s
    else if c = '>' ∧ !l.inFlow then l.readBlockText? true s
    else if c = '\'' then l.readLabel? (asScalar singleQuoted?) s
    else if c = '"' then l.readLabel? (asScalar doubleQuoted?) s
    else if startsPlain l.inFlow (c :: s) then l.readPlain? (c :: s)
    else none

/-! ## §5. Whole texts -/

/-- Reads tokens to the end of the text; each takes at least one character. -/
def run? : Nat → Layout → Option (List (Token String))
  | 0, _ => none
  | bound + 1, l =>
    let l := l.nextToken
    if l.cursor.rest.isEmpty then
      (l.closeBlocks fun _ => true).dropKey?.map (·.tokens.reverse)
    else l.token?.bind (run? bound)

end Layout

/-- The tokens of a text. -/
def tokens? (text : List Char) : Option (List (Token String)) :=
  (Layout.start text).run? (text.length + 1)

end DesignTokens.Yaml
