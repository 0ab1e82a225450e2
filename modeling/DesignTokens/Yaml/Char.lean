/-
  DesignTokens.Yaml.Char — the characters of a YAML text.

  A text is read with its line breaks in one form: a carriage return, alone or with a line feed
  behind it, and U+0085 count as a line feed.  U+2028 and U+2029 are line breaks as well, and
  stay what they are.
-/
import DesignTokens.Text.Reading

namespace DesignTokens.Yaml

/-! ## §1. Classes -/

/-- Whether a character breaks the line. -/
def isBreak (c : Char) : Bool := c == '\n' || c.toNat == 0x2028 || c.toNat == 0x2029

/-- Whether a character is a blank within a line. -/
def isBlank (c : Char) : Bool := c == ' ' || c == '\t'

/-- Whether a character separates words. -/
def isGap (c : Char) : Bool := isBlank c || isBreak c

/-- Whether a text starts with a separator, or ends. -/
def atGap : List Char → Bool
  | [] => true
  | c :: _ => isGap c

/-- Whether a character may stand in the name of an anchor, a directive or a tag handle. -/
def isNameChar (c : Char) : Bool := c.isAlphanum || c == '_' || c == '-'

/-- Whether a character bounds the items of a flow collection. -/
def isFlowMark (c : Char) : Bool := [',', '[', ']', '{', '}'].contains c

/-- Whether a character may occur in a text at all. -/
def isAdmitted (c : Char) : Bool :=
  let n := c.toNat
  n == 0x09 || n == 0x0A || n == 0x0D || (0x20 ≤ n && n ≤ 0x7E) || n == 0x85 ||
    (0xA0 ≤ n && n ≤ 0xFFFD && n != 0xFEFF) || 0x10000 ≤ n

/-- Whether a text starts with the mark that starts or ends a document.  Only at the start of
    a line does the mark mean that. -/
def atMarker : List Char → Bool
  | '-' :: '-' :: '-' :: s => atGap s
  | '.' :: '.' :: '.' :: s => atGap s
  | _ => false

/-! ## §2. One form of line breaks -/

/-- The text with its line breaks in one form. -/
def unifyBreaks : List Char → List Char
  | '\r' :: '\n' :: s => '\n' :: unifyBreaks s
  | c :: s => (if c = '\r' ∨ c.toNat = 0x85 then '\n' else c) :: unifyBreaks s
  | [] => []

end DesignTokens.Yaml
