/-
  DesignTokens.Glob.Reader — glob patterns as they are written.

    `?`        one byte other than a slash
    `*`        any number of bytes other than slashes
    `\c`       the character `c` itself
    `[…]`      one byte of a class, negated by `!` or `^`
    `{a,b}`    one of several branches, which may nest
    `**`       any number of keys, where it stands alone between slashes

  Two stars stand alone at the start of a pattern or of a branch, when a slash or the end of the
  pattern follows: then they match nothing or anything up to a slash.  They also stand alone
  right behind a slash, when a slash, the end, or inside braces the end of a branch follows: then
  they take the place of what stands in front of them.  Everywhere else they are two single
  stars.

  Reading walks over the characters once.  Groups that are still open wait on a stack with the
  parts in front of them and the branches that are complete.
-/
import DesignTokens.Glob.Pattern

namespace DesignTokens.Glob

/-! ## §1. Parts -/

/-- A part of a glob.  Two stars are told apart, as later stars may take their place. -/
inductive Part where
  | plain (p : Pattern)
  /-- Two stars at the start: `(/?|.*/)`. -/
  | anyStart
  /-- Two stars at the end: `/.*`. -/
  | anyEnd
deriving Repr, DecidableEq

/-- A slash. -/
def slashPattern : Pattern := .byte (.only slash)

/-- Anything, slashes included. -/
def anything : Pattern := .run .any

/-- Anything that ends with a slash. -/
def upToSlash : Pattern := .seq anything slashPattern

/-- One key, or any number of keys, with slashes around them: `(/|/.*/)`. -/
def keysBetween : Pattern := .alt slashPattern (.seq slashPattern upToSlash)

/-- The pattern of a part. -/
def Part.pattern : Part → Pattern
  | .plain p => p
  | .anyStart => .alt (.alt .empty slashPattern) upToSlash
  | .anyEnd => .seq slashPattern anything

/-- The pattern of parts that follow each other. -/
def patternOf (parts : List Part) : Pattern := Pattern.inOrder (parts.map Part.pattern)

/-- The pattern of a group.  Branches that are empty are dropped. -/
def groupOf (branches : List (List Part)) : Pattern :=
  .oneOf ((branches.map patternOf).filter (· ≠ .empty))

/-- A group that is still open: the parts in front of it, the last first, and its complete
    branches, the last first. -/
structure OpenGroup where
  before : List Part
  branches : List (List Part)

/-! ## §2. Classes -/

/-- A class as far as it has been read: its ranges, the last first. -/
structure ClassDraft where
  negated : Bool
  ranges : List (Char × Char)
  /-- Whether a dash has been read that may join two characters. -/
  dash : Bool

/-- The ranges of bytes that a range of characters stands for: the bytes of both ends, and those
    between the last byte of the first and the first byte of the last. -/
def byteRanges (first last : Char) : List (UInt8 × UInt8) :=
  let a := String.utf8EncodeChar first
  let b := String.utf8EncodeChar last
  if first = last then a.map fun x => (x, x)
  else
    a.dropLast.map (fun x => (x, x)) ++ [(a.getLastD 0, b.headD 0)] ++ b.tail.map (fun x => (x, x))

/-- The part of a class that is complete.  A dash at the end stands for itself. -/
def ClassDraft.finish (d : ClassDraft) : Part :=
  let ranges := if d.dash then ('-', '-') :: d.ranges else d.ranges
  .plain (.byte ⟨d.negated, ranges.reverse.flatMap fun (first, last) => byteRanges first last⟩)

/-- Reads a character of a class; a range must not run backwards. -/
def ClassDraft.add (d : ClassDraft) (c : Char) : Option ClassDraft :=
  match d.ranges with
  | [] => some { d with ranges := [(c, c)], dash := false }
  | (first, last) :: rest =>
    if d.dash then
      if c < first then none else some { d with ranges := (first, c) :: rest, dash := false }
    else if c = '-' then some { d with dash := true }
    else some { d with ranges := (c, c) :: (first, last) :: rest }

/-! ## §3. Stars -/

/-- What two stars become, from what stands around them. -/
inductive Stars where
  /-- Two single stars. -/
  | single
  /-- At the start; a slash that follows is taken along. -/
  | start
  /-- In the place of the part in front of them, with keys to follow. -/
  | between
  /-- In the place of the part in front of them, with nothing to follow. -/
  | atEnd
deriving Repr, DecidableEq

/-- What two stars become: `first` tells whether no part stands in front of them in their
    branch, `inGroup` whether they stand inside braces, `previous` is the character in front of
    them and `next` the one behind. -/
def Stars.of (first inGroup : Bool) (previous next : Option Char) : Stars :=
  if first then
    if next = none ∨ next = some '/' then .start else .single
  else if previous = some '/' ∨ (inGroup ∧ (previous = some ',' ∨ previous = some '{')) then
    if next = none then .atEnd
    else if inGroup ∧ (next = some ',' ∨ next = some '}') then .atEnd
    else if next = some '/' then .between
    else .single
  else .single

/-- The parts, the last first, behind two stars. -/
def Stars.push (stars : Stars) (parts : List Part) : List Part :=
  match stars with
  | .single => .plain (.run .inside) :: .plain (.run .inside) :: parts
  | .start => .anyStart :: parts
  | .between => replace (.plain keysBetween)
  | .atEnd => replace .anyEnd
where
  /-- Puts a part in the place of the last one, unless that is itself made of two stars. -/
  replace (part : Part) : List Part :=
    match parts with
    | .anyStart :: rest => .anyStart :: rest
    | .anyEnd :: rest => .anyEnd :: rest
    | _ :: rest => part :: rest
    | [] => [part]

/-- Whether two stars take a slash behind them along. -/
def Stars.takesSlash : Stars → Bool
  | .start | .between => true
  | .single | .atEnd => false

/-! ## §4. Reading -/

mutual

/-- Reads parts behind the character `previous`; `parts` are those of the current branch, the
    last first. -/
def read (previous : Option Char) (groups : List OpenGroup) (parts : List Part) :
    List Char → Option (List Part)
  | [] => if groups.isEmpty then some parts.reverse else none
  | '?' :: s => read (some '?') groups (.plain (.byte .inside) :: parts) s
  | '*' :: '*' :: '/' :: s =>
    let stars := Stars.of parts.isEmpty (!groups.isEmpty) previous (some '/')
    if stars.takesSlash then read (some '/') groups (stars.push parts) s
    else read (some '/') groups (.plain slashPattern :: stars.push parts) s
  | '*' :: '*' :: s =>
    let stars := Stars.of parts.isEmpty (!groups.isEmpty) previous s.head?
    read (some '*') groups (stars.push parts) s
  | '*' :: s => read (some '*') groups (.plain (.run .inside) :: parts) s
  | '[' :: '!' :: s => readClass groups parts ⟨true, [], false⟩ s
  | '[' :: '^' :: s => readClass groups parts ⟨true, [], false⟩ s
  | '[' :: s => readClass groups parts ⟨false, [], false⟩ s
  | '{' :: s => read (some '{') (⟨parts, []⟩ :: groups) [] s
  | '}' :: s =>
    match groups with
    | [] => none
    | g :: rest =>
      let group := groupOf (g.branches.reverse ++ [parts.reverse])
      read (some '}') rest (.plain group :: g.before) s
  | ',' :: s =>
    match groups with
    | [] => read (some ',') [] (.plain (.literal ',') :: parts) s
    | g :: rest => read (some ',') ({ g with branches := parts.reverse :: g.branches } :: rest) [] s
  | '\\' :: c :: s => read (some c) groups (.plain (.literal c) :: parts) s
  | ['\\'] => none
  | c :: s => read (some c) groups (.plain (.literal c) :: parts) s

/-- Reads the rest of a class.  A closing bracket ends it, unless it is the first character. -/
def readClass (groups : List OpenGroup) (parts : List Part) (d : ClassDraft) :
    List Char → Option (List Part)
  | [] => none
  | c :: s =>
    if c = ']' ∧ d.ranges ≠ [] then read (some ']') groups (d.finish :: parts) s
    else
      match d.add c with
      | none => none
      | some d => readClass groups parts d s

end

/-- The pattern that a glob stands for, if it is one.  Two stars alone match everything. -/
def compile? (glob : List Char) : Option Pattern :=
  (read none [] [] glob).map fun parts =>
    if parts = [.anyStart] then anything else patternOf parts

end DesignTokens.Glob
