/-
  DesignTokens.Yaml.Plain — scalars without quotes.

  A plain scalar is a run of words.  It ends where a colon meets a gap, at a comment behind a
  gap, at the mark of a document, at a line that is not indented deeply enough, and, inside a
  flow collection, at a character that bounds its items.
-/
import DesignTokens.Yaml.Gap

namespace DesignTokens.Yaml

open Text (Read startsWith)

/-! ## §1. Words -/

/-- The characters that may not stand directly behind a colon in a flow collection. -/
def isBehindColon (c : Char) : Bool := isFlowMark c || c == '?'

/-- The characters up to the next gap or to where the scalar ends. -/
def word? (inFlow : Bool) : Read (List Char)
  | [] => some ([], [])
  | c :: s =>
    if isGap c then some ([], c :: s)
    else if c = ':' ∧ atGap s then some ([], c :: s)
    else if inFlow ∧ c = ':' ∧ startsWith isBehindColon s then none
    else if inFlow ∧ isFlowMark c then some ([], c :: s)
    else (word? inFlow s).map fun (word, rest) => (c :: word, rest)

/-! ## §2. Scalars -/

/-- A plain scalar that has been read. -/
structure PlainText where
  text : List Char
  /-- Whether the gap behind the scalar breaks the line. -/
  broken : Bool
deriving Repr, DecidableEq

/-- The words behind the first, with the gaps between them folded.  The gap behind the last
    word is taken off as well. -/
def moreWords? (inFlow : Bool) (margin : Nat) : Nat → Read PlainText
  | 0, _ => none
  | bound + 1, s =>
    let (gap, rest) := Gap.read s
    if gap.hasTabWithin margin then none
    else if (gap.isBroken && !inFlow && gap.column < margin) || gap.leadsToMarker rest
        || startsWith (· == '#') rest then
      some (⟨[], gap.isBroken⟩, rest)
    else do
      let (word, left) ← word? inFlow rest
      if word.isEmpty then return (⟨[], gap.isBroken⟩, rest)
      let (more, left) ← moreWords? inFlow margin bound left
      return ({ more with text := gap.text ++ word ++ more.text }, left)

/-- A plain scalar.  Its lines behind the first must be indented by `margin` columns, unless it
    stands in a flow collection. -/
def plainText? (inFlow : Bool) (margin : Nat) : Read PlainText := fun s => do
  let (word, rest) ← word? inFlow s
  let (more, rest) ← moreWords? inFlow margin (rest.length + 1) rest
  return ({ more with text := word ++ more.text }, rest)

/-! ## §3. Where a plain scalar may start -/

/-- The characters that have a meaning at the start of a word. -/
def isIndicator (c : Char) : Bool := "-?:,[]\x7b\x7d#&*!|>'\"%@`".toList.contains c

/-- Whether a plain scalar starts here. -/
def startsPlain (inFlow : Bool) : List Char → Bool
  | [] => false
  | c :: s =>
    !(isGap c || isIndicator c) || (c == '-' && !startsWith isBlank s) ||
      (!inFlow && (c == '?' || c == ':') && !atGap s)

end DesignTokens.Yaml
