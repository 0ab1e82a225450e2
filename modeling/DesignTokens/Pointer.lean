/-
  DesignTokens.Pointer — paths into a document.

  A path is a list of segments: keys of objects and positions of arrays.  Its text puts a slash
  in front of every segment, a tilde inside a segment being written `~0` and a slash `~1`; the
  empty text is the path of the whole document.  Reading is lenient about the first slash, so
  `a/b` and `/a/b` are the same path, while `/` alone is the key with the empty name.

  Main facts:
    * `unescape_escape` — escaping a segment loses nothing.
    * `parse_text` — the text of a path reads back as the path.
-/
import DesignTokens.Text.Pieces

namespace DesignTokens

/-- A path into a document, segment by segment. -/
structure Pointer where
  segments : List String
deriving Repr, DecidableEq, Inhabited

namespace Pointer

/-! ## §1. Segments as text -/

/-- How a character of a segment is written. -/
def escapeChar (c : Char) : List Char :=
  if c = '~' then ['~', '0'] else if c = '/' then ['~', '1'] else [c]

/-- A segment as it is written inside a pointer. -/
def escape (segment : List Char) : List Char := segment.flatMap escapeChar

/-- Replaces every occurrence of the pair `first second` by one character. -/
def replacePair (first second replacement : Char) : List Char → List Char
  | [] => []
  | [c] => [c]
  | c :: d :: s =>
    if c = first ∧ d = second then replacement :: replacePair first second replacement s
    else c :: replacePair first second replacement (d :: s)

/-- Undoes `escape`: slashes first, so that the tilde of `~01` is not taken for a slash. -/
def unescape (segment : List Char) : List Char :=
  replacePair '~' '0' '~' (replacePair '~' '1' '/' segment)

/-- `escape` on strings. -/
def escapeSegment (segment : String) : String := String.ofList (escape segment.toList)

/-- `unescape` on strings. -/
def unescapeSegment (segment : String) : String := String.ofList (unescape segment.toList)

/-! ## §2. Paths as text -/

/-- The segments that a pointer text names. -/
def segmentsOf : List Char → List String
  | [] => []
  | '/' :: body => (Text.pieces '/' body).map fun piece => String.ofList (unescape piece)
  | body => (Text.pieces '/' body).map fun piece => String.ofList (unescape piece)

/-- The path that a pointer text names. -/
def parse (text : String) : Pointer := ⟨segmentsOf text.toList⟩

/-- The characters of the text of a list of segments. -/
def charsOf : List String → List Char
  | [] => []
  | segment :: rest => '/' :: (escape segment.toList ++ charsOf rest)

/-- The text of a path. -/
def text (p : Pointer) : String := String.ofList (charsOf p.segments)

instance : ToString Pointer := ⟨text⟩

/-! ## §3. Parts of paths -/

/-- The path of the whole document. -/
def root : Pointer := ⟨[]⟩

/-- Whether the path is that of the whole document. -/
def isRoot (p : Pointer) : Bool := p.segments.isEmpty

/-- The number of segments. -/
def length (p : Pointer) : Nat := p.segments.length

/-- The path of the first `count` segments. -/
def take (p : Pointer) (count : Nat) : Pointer := ⟨p.segments.take count⟩

/-- The path one segment further down. -/
def child (p : Pointer) (segment : String) : Pointer := ⟨p.segments ++ [segment]⟩

/-! ## §4. Laws -/

theorem replacePair_cons_of_ne {first second replacement c : Char} (h : c ≠ first)
    (s : List Char) : replacePair first second replacement (c :: s)
      = c :: replacePair first second replacement s := by
  cases s <;> simp [replacePair, h]

/-- Of an escaped segment, replacing `~1` leaves only the tildes escaped. -/
theorem replacePair_slash_escape (segment : List Char) :
    replacePair '~' '1' '/' (escape segment)
      = segment.flatMap fun c => if c = '~' then ['~', '0'] else [c] := by
  induction segment with
  | nil => rfl
  | cons c s ih =>
    rw [escape] at ih
    by_cases htilde : c = '~'
    · simp [escape, escapeChar, htilde, replacePair, ih, replacePair_cons_of_ne]
    · by_cases hslash : c = '/'
      · simp [escape, escapeChar, hslash, replacePair, ih]
      · simp [escape, escapeChar, htilde, hslash, ih, replacePair_cons_of_ne htilde]

theorem replacePair_tilde_flatMap (segment : List Char) :
    replacePair '~' '0' '~' (segment.flatMap fun c => if c = '~' then ['~', '0'] else [c])
      = segment := by
  induction segment with
  | nil => rfl
  | cons c s ih =>
    by_cases htilde : c = '~'
    · simp [htilde, replacePair, ih]
    · simp [htilde, ih, replacePair_cons_of_ne htilde]

/-- Escaping a segment loses nothing. -/
@[simp] theorem unescape_escape (segment : List Char) : unescape (escape segment) = segment := by
  rw [unescape, replacePair_slash_escape, replacePair_tilde_flatMap]

/-- An escaped segment holds no slash. -/
theorem slash_not_mem_escape (segment : List Char) : '/' ∉ escape segment := by
  simp only [escape, List.mem_flatMap, not_exists, not_and]
  intro c _
  by_cases htilde : c = '~'
  · simp [escapeChar, htilde]
  · by_cases hslash : c = '/'
    · simp [escapeChar, hslash]
    · simp [escapeChar, htilde, hslash, Ne.symm hslash]

theorem charsOf_cons_eq (segment : String) (rest : List String) :
    charsOf (segment :: rest)
      = '/' :: Text.joined '/' ((segment :: rest).map fun s => escape s.toList) := by
  induction rest generalizing segment with
  | nil => simp [charsOf, Text.joined]
  | cons next rest ih => rw [charsOf, ih]; simp [Text.joined]

/-- The text of a path reads back as the path. -/
theorem segmentsOf_charsOf (segments : List String) : segmentsOf (charsOf segments) = segments := by
  cases segments with
  | nil => rfl
  | cons segment rest =>
    rw [charsOf_cons_eq, segmentsOf, Text.pieces_joined (by simp)]
    · simp [Function.comp_def]
    · intro t ht
      obtain ⟨s, -, rfl⟩ := List.mem_map.1 ht
      exact slash_not_mem_escape s.toList

theorem parse_text (p : Pointer) : parse p.text = p := by
  simp [parse, text, segmentsOf_charsOf]

end Pointer

/-! ## §5. Paths as documents write them -/

/-- A path as it is written in a document: a pointer text, or a list of segments. -/
inductive WrittenPath where
  | pointer (text : String)
  | segments (names : List String)
deriving Repr, DecidableEq, Inhabited

namespace WrittenPath

/-- The pointer text of a written path, with its leading slash.  Templates are left alone. -/
def patchText : WrittenPath → String
  | .pointer text =>
    match text.toList with
    | [] | '/' :: _ => text
    | _ => "/" ++ text
  | .segments names => (Pointer.mk names).text

/-- The path that is written, before any template in it is looked at. -/
def asWritten : WrittenPath → Pointer
  | .pointer text => Pointer.parse text
  | .segments names => ⟨names⟩

end WrittenPath

end DesignTokens
