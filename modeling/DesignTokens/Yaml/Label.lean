/-
  DesignTokens.Yaml.Label — anchors, tags and declarations.
-/
import DesignTokens.Yaml.Char
import DesignTokens.Yaml.Token
import DesignTokens.Yaml.Quoted

namespace DesignTokens.Yaml

open Text (Read readRun readSome? startsWith isHexDigit)

/-! ## §1. Anchors and references -/

/-- The characters other than gaps that may stand behind a name. -/
def isBehindName (c : Char) : Bool := "?:,]\x7d%@`".toList.contains c

/-- The name of an anchor. -/
def name? : Read String := fun s => do
  let (name, rest) ← readSome? isNameChar s
  if atGap rest || startsWith isBehindName rest then return (String.ofList name, rest) else none

/-! ## §2. Tags -/

/-- The characters of a tag.  Between angle brackets commas and square brackets count too. -/
def isTagChar (bracketed : Bool) (c : Char) : Bool :=
  isNameChar c || ";/?:@&=+$.!~*'()".toList.contains c ||
    (bracketed && [',', '[', ']'].contains c)

/-- An escaped byte: a percent sign and two hexadecimal digits. -/
def escapedByte? : Read Nat
  | '%' :: a :: b :: s =>
    if isHexDigit a && isHexDigit b then some (Number.numeralValue 16 [a, b], s) else none
  | _ => none

/-- Further escaped bytes of a character, six bits each. -/
def moreBytes? (code : Nat) : Nat → Read Nat
  | 0, s => some (code, s)
  | count + 1, s => do
    let (byte, s) ← escapedByte? s
    if byte / 64 = 2 then moreBytes? (code * 64 + byte % 64) count s else none

/-- A character that is written as escaped bytes. -/
def escapedChar? : Read Char := fun s => do
  let (byte, s) ← escapedByte? s
  let (code, s) ←
    if byte < 0x80 then pure (byte, s)
    else if byte / 32 = 6 then moreBytes? (byte % 32) 1 s
    else if byte / 16 = 14 then moreBytes? (byte % 16) 2 s
    else if byte / 8 = 30 then moreBytes? (byte % 8) 3 s
    else none
  (charOfCode? code).map fun c => (c, s)

/-- The characters of a tag, as many as there are. -/
def tagText? (bracketed : Bool) : Nat → Read (List Char)
  | 0, _ => none
  | _ + 1, [] => some ([], [])
  | bound + 1, c :: s =>
    if c = '%' then do
      let (d, s) ← escapedChar? (c :: s)
      (tagText? bracketed bound s).map fun (text, rest) => (d :: text, rest)
    else if isTagChar bracketed c then
      (tagText? bracketed bound s).map fun (text, rest) => (c :: text, rest)
    else some ([], c :: s)

/-- The characters of a tag, at least one. -/
def someTagText? (bracketed : Bool) : Read (List Char) := fun s => do
  let (text, rest) ← tagText? bracketed (s.length + 1) s
  if text.isEmpty then none else return (text, rest)

/-- The handle and the suffix of a tag behind its exclamation mark.  A tag between angle
    brackets has the empty handle, and so has the lone exclamation mark. -/
def tagParts? : Read (String × String)
  | '<' :: s => do
    let (text, rest) ← someTagText? true s
    match rest with
    | '>' :: rest => return (("", String.ofList text), rest)
    | _ => none
  | s => do
    let (name, rest) := readRun isNameChar s
    match rest with
    | '!' :: rest =>
      let (text, rest) ← someTagText? false rest
      return ((String.ofList ('!' :: name ++ ['!']), String.ofList text), rest)
    | _ =>
      let (text, rest) ← tagText? false (rest.length + 1) rest
      match name ++ text with
      | [] => return (("", "!"), rest)
      | suffix => return (("!", String.ofList suffix), rest)

/-- A tag behind its exclamation mark, up to what ends it. -/
def tag? (inFlow : Bool) : Read (Token String) := fun s => do
  let ((handle, suffix), rest) ← tagParts? s
  if atGap rest || (inFlow && startsWith (· == ',') rest) then
    return (.tag handle suffix, rest)
  else none

/-! ## §3. Declarations -/

/-- A number of a version has at most nine digits. -/
def versionNumber? : Read Nat := fun s => do
  let (digits, rest) ← readSome? Char.isDigit s
  if digits.length ≤ 9 then return (Number.numeralValue 10 digits, rest) else none

/-- The two numbers of a version. -/
def version? : Read (Token String) := fun s => do
  let (major, s) ← versionNumber? s
  match s with
  | '.' :: s =>
    let (minor, s) ← versionNumber? s
    return (.version major minor, s)
  | _ => none

/-- The handle that a declaration gives a meaning. -/
def declaredHandle? : Read String
  | '!' :: s =>
    let (name, rest) := readRun isNameChar s
    match rest with
    | '!' :: rest => some (String.ofList ('!' :: name ++ ['!']), rest)
    | _ => if name.isEmpty then some ("!", rest) else none
  | _ => none

/-- A handle and the text that it stands for. -/
def tagHandle? : Read (Token String) := fun s => do
  let (handle, s) ← declaredHandle? s
  if !startsWith isBlank s then none
  let (text, s) ← someTagText? true (s.dropWhile isBlank)
  if atGap s then return (.tagHandle handle (String.ofList text), s) else none

/-- A declaration behind its percent sign, up to the end of its line. -/
def declaration? : Read (Token String) := fun s => do
  let (name, s) ← readSome? isNameChar s
  if !atGap s then none
  let s := s.dropWhile isBlank
  let (token, s) ←
    if name = "YAML".toList then version? s
    else if name = "TAG".toList then tagHandle? s
    else none
  let s := s.dropWhile isBlank
  let s := if startsWith (· == '#') s then s.dropWhile (!isBreak ·) else s
  match s with
  | [] => return (token, [])
  | c :: s => if isBreak c then return (token, s) else none

end DesignTokens.Yaml
