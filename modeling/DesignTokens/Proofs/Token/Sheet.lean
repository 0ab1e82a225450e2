/-
  DesignTokens.Proofs.Token.Sheet — reading the declarations of a style sheet.

  Values stand in a style sheet as they are.  So a value may end its declaration and begin
  another one, or open a bracket that takes in the declarations behind it.  What the text of a
  sheet declares is found by reading the text: a block is cut at the semicolons outside of quotes
  and brackets, and each piece is a property in front of a colon and its value behind it.

  The reader knows no escapes, no comments and no marks of importance, and gives no result for a
  text that has one.  A value that stays inside of its declaration is read back as it was written,
  whatever stands around it.  Numbers and truth values do.

  Main facts:
    * `cutAll?_of_settles` — a piece ends behind a text that leaves nothing open.
    * `contained_write_of_not_str` — numbers and truth values stay inside of a declaration.
    * `declarations?_lines` — lines with contained values are read back.
-/
import DesignTokens.Proofs.Edit.Position
import DesignTokens.Text.Blank
import DesignTokens.Token.Table

namespace DesignTokens.Css

open Text (isBlank)

/-! ## §1. The reader -/

/-- The character that closes what a character opens. -/
def closer? : Char → Option Char
  | '(' => some ')'
  | '[' => some ']'
  | '{' => some '}'
  | '"' => some '"'
  | '\'' => some '\''
  | _ => none

/-- Whether a quote is open, in which brackets are text. -/
def inQuotes (closers : List Char) : Bool :=
  closers.head? == some '"' || closers.head? == some '\''

/-- What is still to be closed behind a character, the innermost first.  There is no answer for
    an escape, for a break inside of quotes, for a mark of importance and for a bracket that
    closes nothing. -/
def pending? (closers : List Char) (c : Char) : Option (List Char) :=
  if c == '\\' then none
  -- a quote that is open is closed by itself, so this comes before the brackets that it hides
  else if closers.head? == some c then some closers.tail
  else if inQuotes closers then
    if c == '\n' || c == '\r' || c == '\x0c' then none else some closers
  else if c == '!' || c == ')' || c == ']' || c == '}' then none
  else some ((closer? c).toList ++ closers)

/-- Whether a comment begins with the character in front of the text. -/
def opensComment (c : Char) (rest : List Char) : Bool := c == '/' && rest.head? == some '*'

/-- The pieces of a text between the semicolons outside of quotes and brackets. -/
def cutAll? : (closers : List Char) → List Char → Option (List (List Char))
  | closers, [] => if closers.isEmpty then some [[]] else none
  | closers, c :: rest =>
    if c == ';' && closers.isEmpty then (cutAll? [] rest).map ([] :: ·)
    else if opensComment c rest then none
    else (pending? closers c).bind fun next =>
      (cutAll? next rest).map (List.modifyHead (c :: ·))

/-- The property in front of the first colon, and the value behind it. -/
def declaration? (piece : List Char) : Option (String × String) :=
  (piece.dropWhile (· != ':')).tail?.map fun value =>
    (String.ofList (Text.trim (piece.takeWhile (· != ':'))), String.ofList (Text.trim value))

/-- The declarations of a block, in order. -/
def declarations? (block : List Char) : Option (List (String × String)) := do
  let pieces ← cutAll? [] block
  (pieces.filter fun piece => !piece.all isBlank).mapM declaration?

/-! ## §2. Texts that leave nothing open -/

/-- Nothing is open behind the text, no semicolon stands outside of quotes and brackets, and the
    reader has an answer for every character. -/
def settles : (closers : List Char) → List Char → Bool
  | closers, [] => closers.isEmpty
  | closers, c :: rest =>
    !(c == ';' && closers.isEmpty) && !opensComment c rest &&
      (pending? closers c).any fun next => settles next rest

/-- The value stays inside of its declaration, and has no blanks at its ends. -/
def Contained (value : String) : Prop :=
  settles [] value.toList = true ∧ Text.trim value.toList = value.toList

instance (value : String) : Decidable (Contained value) :=
  inferInstanceAs (Decidable (_ ∧ _))

/-- A semicolon behind a text makes no comment of it. -/
theorem opensComment_append (c : Char) (s rest : List Char) :
    opensComment c (s ++ ';' :: rest) = opensComment c s := by
  cases s with
  | nil =>
    unfold opensComment
    rw [List.nil_append, List.head?_cons]
    rfl
  | cons d s => rfl

/-- **A piece ends behind a text that leaves nothing open.** -/
theorem cutAll?_of_settles {closers value : List Char} (h : settles closers value = true)
    (rest : List Char) :
    cutAll? closers (value ++ ';' :: rest) = (cutAll? [] rest).map (value :: ·) := by
  induction value generalizing closers with
  | nil =>
    have hclosers : closers = [] := List.isEmpty_iff.1 h
    subst hclosers
    rfl
  | cons c value ih =>
    rw [settles, Bool.and_eq_true, Bool.and_eq_true, Bool.not_eq_true', Bool.not_eq_true',
      Option.any_eq_true] at h
    obtain ⟨⟨hsemicolon, hcomment⟩, next, hnext, hsettles⟩ := h
    -- the cut goes on behind the character with the same closers as the test
    rw [List.cons_append, cutAll?, hsemicolon, opensComment_append, hcomment, hnext,
      if_neg Bool.false_ne_true, if_neg Bool.false_ne_true, Option.bind_some, ih hsettles,
      Option.map_map]
    rfl

/-- The characters that open or close something, or end a declaration. -/
def marks : List Char := [';', '/', '\\', '!', '(', ')', '[', ']', '{', '}', '"', '\'']

/-- Outside of quotes and brackets the other characters change nothing. -/
theorem pending?_of_not_mem_marks {c : Char} (h : c ∉ marks) : pending? [] c = some [] := by
  simp only [marks, List.mem_cons, not_or, List.not_mem_nil, not_false_eq_true, and_true] at h
  have hcloser : closer? c = none := by
    unfold closer?
    split <;> simp_all
  simp [pending?, inQuotes, hcloser, h]

theorem opensComment_of_not_mem_marks {c : Char} (h : c ∉ marks) (rest : List Char) :
    opensComment c rest = false := by
  have hslash : c ≠ '/' := fun hc => h (by rw [hc]; decide)
  rw [opensComment, beq_eq_false_iff_ne.2 hslash, Bool.false_and]

theorem not_ends_of_not_mem_marks {c : Char} (h : c ∉ marks) : (c == ';') = false :=
  beq_eq_false_iff_ne.2 fun hc => h (by rw [hc]; decide)

theorem settles_append {front : List Char} (h : ∀ c ∈ front, c ∉ marks) (value : List Char) :
    settles [] (front ++ value) = settles [] value := by
  induction front with
  | nil => rfl
  | cons c front ih =>
    obtain ⟨hc, hfront⟩ := List.forall_mem_cons.1 h
    rw [List.cons_append, settles, not_ends_of_not_mem_marks hc, opensComment_of_not_mem_marks hc,
      pending?_of_not_mem_marks hc, ← ih hfront]
    rfl

theorem settles_of_forall {s : List Char} (h : ∀ c ∈ s, c ∉ marks) : settles [] s = true := by
  have happend := settles_append h []
  rwa [List.append_nil] at happend

theorem cutAll?_of_forall {s : List Char} (h : ∀ c ∈ s, c ∉ marks) : cutAll? [] s = some [s] := by
  induction s with
  | nil => rfl
  | cons c s ih =>
    obtain ⟨hc, hs⟩ := List.forall_mem_cons.1 h
    rw [cutAll?, not_ends_of_not_mem_marks hc, opensComment_of_not_mem_marks hc,
      pending?_of_not_mem_marks hc, Option.bind_some, ih hs]
    rfl

/-- A class of characters without marks. -/
theorem not_mem_marks {p : Char → Bool} (hmarks : marks.all (fun c => !p c) = true) {c : Char}
    (h : p c = true) : c ∉ marks := by
  intro hmem
  have hp := List.all_eq_true.1 hmarks c hmem
  rw [h] at hp
  cases hp

/-- A text that holds neither marks nor blanks is contained. -/
theorem contained_of_forall {p : Char → Bool} (hmarks : marks.all (fun c => !p c) = true)
    (hblank : ∀ c, p c = true → isBlank c = false) {value : String}
    (h : ∀ c ∈ value.toList, p c = true) : Contained value :=
  ⟨settles_of_forall fun c hc => not_mem_marks hmarks (h c hc),
    Text.trim_eq_self_of_forall fun c hc => hblank c (h c hc)⟩

/-- Letters and digits are not blank. -/
theorem isBlank_of_isAlphanum {c : Char} (h : c.isAlphanum = true) : isBlank c = false := by
  have hclasses : (decide (65 ≤ c.val ∧ c.val ≤ 90) || (decide (97 ≤ c.val) && decide (c.val ≤ 122))
      || (decide (48 ≤ c.val) && decide (c.val ≤ 57))) = true := h
  simp only [Bool.or_eq_true, Bool.and_eq_true, decide_eq_true_eq] at hclasses
  have hbounds : 48 ≤ c.toNat ∧ c.toNat ≤ 122 := by
    rcases hclasses with (⟨hge, hle⟩ | ⟨hge, hle⟩) | ⟨hge, hle⟩
    · exact ⟨Nat.le_trans (by decide) (show 65 ≤ c.toNat from hge),
        Nat.le_trans (show c.toNat ≤ 90 from hle) (by decide)⟩
    · exact ⟨Nat.le_trans (by decide) (show 97 ≤ c.toNat from hge), hle⟩
    · exact ⟨hge, Nat.le_trans (show c.toNat ≤ 57 from hle) (by decide)⟩
  simp only [isBlank, Bool.or_eq_false_iff, Bool.and_eq_false_iff, decide_eq_false_iff_not,
    beq_eq_false_iff_ne]
  omega

/-! ## §3. Numbers and truth values -/

/-- A character that numbers are written with. -/
def isNumberChar (c : Char) : Bool := c.isDigit || c == '-' || c == '+' || c == '.' || c == 'e'

theorem forall_mem_toDigits (n : Nat) : ∀ c ∈ Nat.toDigits 10 n, isNumberChar c = true := by
  intro c hc
  unfold isNumberChar
  rw [Edit.isDigit_of_mem_toDigits hc]
  rfl

theorem isBlank_of_isNumberChar {c : Char} (h : isNumberChar c = true) : isBlank c = false := by
  simp only [isNumberChar, Bool.or_eq_true, beq_iff_eq] at h
  rcases h with (((hdigit | rfl) | rfl) | rfl) | rfl
  · exact isBlank_of_isAlphanum (by rw [Char.isAlphanum, hdigit, Bool.or_true])
  · decide
  · decide
  · decide
  · decide

section Digits

variable {digits : List Char} (h : ∀ c ∈ digits, isNumberChar c = true) (lead : Int)

include h

theorem forall_mem_significant : ∀ c ∈ Number.significant digits, isNumberChar c = true := by
  intro c hc
  have hdrop := (List.dropWhile_sublist _).subset (List.mem_reverse.1 hc)
  exact h c (List.mem_reverse.1 hdrop)

theorem forall_mem_positional : ∀ c ∈ Number.positional digits lead, isNumberChar c = true := by
  have hzeros : ∀ count, ∀ c ∈ Number.zeros count, isNumberChar c = true := by
    intro count c hc
    rw [List.eq_of_mem_replicate hc]
    rfl
  unfold Number.positional
  split
  · rw [List.forall_mem_append, List.forall_mem_append]
    exact ⟨⟨List.all_eq_true.1 rfl, hzeros _⟩, h⟩
  · dsimp only
    split
    · rw [List.forall_mem_append, List.forall_mem_append]
      exact ⟨⟨h, hzeros _⟩, List.all_eq_true.1 rfl⟩
    · rw [List.forall_mem_append, List.forall_mem_cons]
      exact ⟨fun c hc => h c (List.mem_of_mem_take hc), rfl,
        fun c hc => h c (List.mem_of_mem_drop hc)⟩

theorem forall_mem_scientific : ∀ c ∈ Number.scientific digits lead, isNumberChar c = true := by
  unfold Number.scientific
  dsimp only
  rw [List.forall_mem_append, List.forall_mem_cons, List.forall_mem_cons]
  refine ⟨?_, rfl, ?_, forall_mem_toDigits _⟩
  · split
    · rw [List.forall_mem_cons, List.forall_mem_cons] at h
      exact List.forall_mem_cons.2 ⟨h.1, List.forall_mem_cons.2 ⟨rfl, List.forall_mem_cons.2 h.2⟩⟩
    · exact h
  · split <;> rfl

end Digits

theorem forall_mem_magnitudeText (d : Number.Decimal) :
    ∀ c ∈ Number.magnitudeText d, isNumberChar c = true := by
  have hdigits := forall_mem_significant (forall_mem_toDigits d.digits)
  unfold Number.magnitudeText
  dsimp only
  split
  · exact forall_mem_positional hdigits _
  · exact forall_mem_scientific hdigits _

/-- **Numbers are written with digits, signs, points and exponents.** -/
theorem forall_mem_text (n : Number) : ∀ c ∈ n.text.toList, isNumberChar c = true := by
  cases n with
  | int value =>
    cases value with
    | ofNat n =>
      show ∀ c ∈ (toString (Int.ofNat n)).toList, isNumberChar c = true
      rw [Edit.toList_ofNat]
      exact forall_mem_toDigits n
    | negSucc n =>
      show ∀ c ∈ (toString (Int.negSucc n)).toList, isNumberChar c = true
      rw [Edit.toList_negSucc]
      exact List.forall_mem_cons.2 ⟨rfl, forall_mem_toDigits (n + 1)⟩
  | double bits =>
    show ∀ c ∈ (Number.doubleText bits).toList, isNumberChar c = true
    have hmagnitude : ∀ c ∈ (if Number.isZero bits then ['0', '.', '0']
        else Number.magnitudeText (Number.Dyadic.ofBits bits).shortest), isNumberChar c = true := by
      split
      · exact List.all_eq_true.1 rfl
      · exact forall_mem_magnitudeText _
    unfold Number.doubleText
    dsimp only
    rw [String.toList_ofList]
    split
    · exact List.forall_mem_cons.2 ⟨rfl, hmagnitude⟩
    · exact hmagnitude

/-- **Numbers and truth values stay inside of a declaration.** -/
theorem contained_write_of_not_str {t : Tree} (hscalar : t.isContainer = false)
    (hstr : ∀ s, t ≠ .str s) : Contained (Json.write t) := by
  cases t with
  | null => decide
  | bool b => cases b <;> decide
  | num n =>
    exact contained_of_forall (p := isNumberChar) (by decide)
      (fun _ => isBlank_of_isNumberChar) (forall_mem_text n)
  | str s => exact absurd rfl (hstr s)
  | arr items => cases hscalar
  | obj fields => cases hscalar

/-! ## §4. Lines -/

/-- A character that the names of properties hold. -/
def isNameChar (c : Char) : Bool := c.isAlphanum || c == '-' || c == '_'

/-- The declaration of a property, on a line of its own. -/
def line (entry : String × String) : String := "  " ++ entry.1 ++ ": " ++ entry.2 ++ ";\n"

/-- What stands in a line in front of the semicolon, behind a gap. -/
def piece (gap : List Char) (entry : String × String) : List Char :=
  (gap ++ [' ', ' '] ++ entry.1.toList) ++ ':' :: ' ' :: entry.2.toList

theorem append_line (gap : List Char) (entry : String × String) (rest : List Char) :
    gap ++ ((line entry).toList ++ rest) = piece gap entry ++ ';' :: '\n' :: rest := by
  unfold line piece
  simp

theorem isBlank_of_isNameChar {c : Char} (h : isNameChar c = true) : isBlank c = false := by
  simp only [isNameChar, Bool.or_eq_true, beq_iff_eq] at h
  rcases h with (halphanum | rfl) | rfl
  · exact isBlank_of_isAlphanum halphanum
  · decide
  · decide

section Piece

variable {gap : List Char} (hgap : ∀ b ∈ gap, isBlank b = true) {entry : String × String}
  (hname : ∀ c ∈ entry.1.toList, isNameChar c = true) (hvalue : Contained entry.2)

include hgap hname

/-- The characters in front of the colon. -/
theorem forall_mem_front {p : Char → Prop} (hblank : ∀ c, isBlank c = true → p c)
    (hnames : ∀ c, isNameChar c = true → p c) : ∀ c ∈ gap ++ [' ', ' '] ++ entry.1.toList, p c := by
  rw [List.forall_mem_append, List.forall_mem_append]
  refine ⟨⟨fun c hc => hblank c (hgap c hc), ?_⟩, fun c hc => hnames c (hname c hc)⟩
  exact List.forall_mem_cons.2 ⟨hblank ' ' rfl, List.forall_mem_singleton.2 (hblank ' ' rfl)⟩

include hvalue

theorem settles_piece : settles [] (piece gap entry) = true := by
  have hfront := forall_mem_front hgap hname
    (fun c => not_mem_marks (p := isBlank) (c := c) (by decide))
    (fun c => not_mem_marks (p := isNameChar) (c := c) (by decide))
  have hcolon : ∀ c ∈ [':', ' '], c ∉ marks :=
    List.forall_mem_cons.2 ⟨by decide, List.forall_mem_singleton.2 (by decide)⟩
  unfold piece
  rw [settles_append hfront]
  show settles [] ([':', ' '] ++ entry.2.toList) = true
  rw [settles_append hcolon]
  exact hvalue.1

theorem declaration?_piece : declaration? (piece gap entry) = some entry := by
  have hfront : ∀ c ∈ gap ++ [' ', ' '] ++ entry.1.toList, (c != ':') = true :=
    forall_mem_front hgap hname
      (fun c hc => bne_iff_ne.2 (by rintro rfl; exact absurd hc (by decide)))
      (fun c hc => bne_iff_ne.2 (by rintro rfl; exact absurd hc (by decide)))
  have hblanks : ∀ b ∈ gap ++ [' ', ' '], isBlank b = true :=
    List.forall_mem_append.2 ⟨hgap, List.all_eq_true.1 rfl⟩
  have hproperty : Text.trim (gap ++ [' ', ' '] ++ entry.1.toList) = entry.1.toList := by
    rw [Text.trim_blanks_front hblanks]
    exact Text.trim_eq_self_of_forall fun c hc => isBlank_of_isNameChar (hname c hc)
  have hblank : ∀ b ∈ [' '], isBlank b = true := List.all_eq_true.1 rfl
  have htext : Text.trim (' ' :: entry.2.toList) = entry.2.toList :=
    (Text.trim_blanks_front hblank entry.2.toList).trans hvalue.2
  unfold declaration? piece
  rw [List.takeWhile_append_of_pos hfront, List.dropWhile_append_of_pos hfront]
  have htake : (':' :: ' ' :: entry.2.toList).takeWhile (· != ':') = [] := rfl
  have hdrop : ((':' :: ' ' :: entry.2.toList).dropWhile (· != ':')).tail?
      = some (' ' :: entry.2.toList) := rfl
  rw [htake, hdrop, List.append_nil, Option.map_some, hproperty, htext, String.ofList_toList,
    String.ofList_toList]

end Piece

/-- A piece with a colon that leaves nothing open is a declaration of its own. -/
theorem declarations?_cons {piece : List Char} (hsettles : settles [] piece = true)
    (hcolon : ':' ∈ piece) (rest : List Char) :
    declarations? (piece ++ ';' :: rest) = (declaration? piece).bind fun entry =>
      (declarations? rest).map (entry :: ·) := by
  -- a colon is not blank, so the piece is not passed over
  have hkept : piece.all isBlank = false :=
    List.all_eq_false.2 ⟨':', hcolon, by decide⟩
  unfold declarations?
  rw [cutAll?_of_settles hsettles]
  cases cutAll? [] rest with
  | none => cases declaration? piece <;> rfl
  | some pieces =>
    show ((piece :: pieces).filter fun piece => !piece.all isBlank).mapM declaration? = _
    rw [List.filter_cons_of_pos (by rw [hkept]; rfl), List.mapM_cons]
    cases declaration? piece with
    | none => rfl
    | some entry =>
      show _ = ((pieces.filter fun piece => !piece.all isBlank).mapM declaration?).map (entry :: ·)
      cases (pieces.filter fun piece => !piece.all isBlank).mapM declaration? <;> rfl

/-- **Lines with contained values are read back**, behind any gap. -/
theorem declarations?_lines {entries : List (String × String)}
    (hnames : ∀ entry ∈ entries, ∀ c ∈ entry.1.toList, isNameChar c = true)
    (hvalues : ∀ entry ∈ entries, Contained entry.2) {gap : List Char}
    (hgap : ∀ b ∈ gap, isBlank b = true) :
    declarations? (gap ++ (String.join (entries.map line)).toList) = some entries := by
  induction entries generalizing gap with
  | nil =>
    have hmarks : ∀ c ∈ gap, c ∉ marks := fun c hc => not_mem_marks (by decide) (hgap c hc)
    show declarations? (gap ++ []) = some []
    rw [List.append_nil, declarations?, cutAll?_of_forall hmarks]
    show ([gap].filter fun piece => !piece.all isBlank).mapM declaration? = some []
    rw [List.filter_cons_of_neg (by rw [List.all_eq_true.2 hgap]; decide)]
    rfl
  | cons entry rest ih =>
    obtain ⟨hname, hnames⟩ := List.forall_mem_cons.1 hnames
    obtain ⟨hvalue, hvalues⟩ := List.forall_mem_cons.1 hvalues
    have hjoin : (String.join ((entry :: rest).map line)).toList
        = (line entry).toList ++ (String.join (rest.map line)).toList := by
      rw [List.map_cons, String.join_cons, String.toList_append]
    have hcolon : ':' ∈ piece gap entry :=
      List.mem_append_right _ List.mem_cons_self
    -- the break behind a semicolon is the gap in front of the next line
    have hblank : ∀ b ∈ ['\n'], isBlank b = true := List.all_eq_true.1 rfl
    have hrest := ih hnames hvalues hblank
    rw [List.singleton_append] at hrest
    rw [hjoin, append_line, declarations?_cons (settles_piece hgap hname hvalue) hcolon,
      declaration?_piece hgap hname hvalue, Option.bind_some]
    rw [hrest]
    rfl

end DesignTokens.Css
