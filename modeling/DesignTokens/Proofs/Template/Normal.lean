/-
  DesignTokens.Proofs.Template.Normal — texts and templates determine each other.

  Taking a text apart loses nothing, whatever the text is.  The other way round a template is
  read back from its text when it is in normal form: its texts are as long as they can be, and
  no mark arises inside of one or where one ends.  A text that ends right in front of a closing
  mark must not end in a closing brace, since the first two of three braces close the span; in
  front of an opening mark, or outside of all spans, a brace does no harm.

  The normal forms are the readings of the texts that leave no span open, so nothing more could
  be asked of a template that is to be read back, the text of an open span apart.

  Main facts:
    * `body_literal` — inside a span, a normal form is read back up to the closing mark.
    * `ofChars_literal` — outside of all spans, a normal form is read back from its text.
    * `normal_ofChars_iff` — what is read is a normal form unless a span is left open.
-/
import DesignTokens.Proofs.Template.Escaped
import DesignTokens.Proofs.Template.Kept
import DesignTokens.Proofs.Template.Stack

namespace DesignTokens.Template

/-! ## §1. Normal forms -/

/-- Whether the template starts with text. -/
def startsText : Template → Bool
  | .text _ _ => true
  | .done | .span _ _ => false

/-- The text can be told from what follows it: it is not empty, no other text touches it, it
    opens no span, and inside of a span it does not close that span, neither by itself nor
    together with the closing mark behind it. -/
def Apart (inside : Bool) (chars : List Char) (rest : Template) : Prop :=
  chars ≠ [] ∧ rest.startsText = false ∧ ¬ openMark <:+: chars ∧
    (inside = true → ¬ closeMark <:+: chars ∧ (rest = .done → chars.getLast? ≠ some '}'))

/-- The normal forms of templates, inside of a span or outside of all spans. -/
def Normal (inside : Bool) : Template → Prop
  | .done => True
  | .text chars rest => Apart inside chars rest ∧ rest.Normal inside
  | .span body rest => body.Normal true ∧ rest.Normal inside

instance (inside : Bool) (chars : List Char) (rest : Template) :
    Decidable (Apart inside chars rest) :=
  inferInstanceAs (Decidable (_ ∧ _ ∧ _ ∧ _))

instance decidableNormal (inside : Bool) : (t : Template) → Decidable (t.Normal inside)
  | .done => inferInstanceAs (Decidable True)
  | .text chars rest =>
    have := decidableNormal inside rest
    inferInstanceAs (Decidable (Apart inside chars rest ∧ rest.Normal inside))
  | .span body rest =>
    have := decidableNormal true body
    have := decidableNormal inside rest
    inferInstanceAs (Decidable (body.Normal true ∧ rest.Normal inside))

variable {s chars following rest : List Char} {t u : Template}

/-! ## §2. Where no mark begins -/

theorem not_prefix_of_suffix {mark : List Char} (hs : s <:+ chars) (h : ¬ mark <:+: chars) :
    ¬ mark <+: s :=
  fun hmark => h (hmark.isInfix.trans hs.isInfix)

/-- No mark reaches into the opening mark of the next span. -/
theorem not_openMark_before_open (hne : s ≠ []) (h : ¬ openMark <+: s) :
    ¬ openMark <+: s ++ (openMark ++ following) := by
  intro hmark
  obtain ⟨c, s, rfl⟩ := List.exists_cons_of_ne_nil hne
  obtain ⟨hc, hbraces⟩ := openMark_prefix_iff.1 hmark
  have hinside : ['{', '{'] <+: s := prefix_of_prefix_append_cons (by decide) hbraces
  exact h (openMark_prefix_iff.2 ⟨hc, hinside⟩)

theorem not_startsMark_before_open (hne : s ≠ []) (h : ¬ StartsMark s) :
    ¬ StartsMark (s ++ (openMark ++ following)) := by
  obtain ⟨hopen, hclose⟩ := not_or.1 h
  rintro (hmark | hmark)
  · exact not_openMark_before_open hne hopen hmark
  · exact hclose (prefix_of_prefix_append_cons (by decide) hmark)

/-- A text that does not end in a brace does not run into the closing mark behind it. -/
theorem not_startsMark_before_close (hne : s ≠ []) (hlast : s.getLast? ≠ some '}')
    (h : ¬ StartsMark s) : ¬ StartsMark (s ++ (closeMark ++ following)) := by
  obtain ⟨hopen, hclose⟩ := not_or.1 h
  rintro (hmark | hmark)
  · exact hopen (prefix_of_prefix_append_cons (by decide) hmark)
  · obtain ⟨c, s, rfl⟩ := List.exists_cons_of_ne_nil hne
    obtain ⟨rfl, hbrace⟩ := closeMark_prefix_iff.1 hmark
    -- the mark lies in the text, or its first brace is the last character of the text
    cases s with
    | nil => exact hlast rfl
    | cons d s =>
      obtain ⟨rfl, -⟩ := List.cons_prefix_cons.1 hbrace
      exact hclose ⟨s, rfl⟩

/-- A template that starts with no text has no text, or that of a span. -/
theorem literal_cases_of_not_startsText (h : t.startsText = false) :
    t = .done ∨ ∃ more, t.literal = openMark ++ more := by
  cases t with
  | done => exact Or.inl rfl
  | text chars rest => cases h
  | span body rest =>
    refine Or.inr ⟨body.literal ++ closeMark ++ rest.literal, ?_⟩
    simp only [literal, List.append_assoc]

/-- Inside of a span, no mark begins in a text of a normal form. -/
theorem Apart.not_startsMark (h : Apart true chars t) (hne : s ≠ []) (hs : s <:+ chars) :
    ¬ StartsMark (s ++ (t.literal ++ (closeMark ++ following))) := by
  obtain ⟨-, hstarts, hopen, hclose⟩ := h
  obtain ⟨hbraces, hlast⟩ := hclose rfl
  have hmark : ¬ StartsMark s :=
    not_or.2 ⟨not_prefix_of_suffix hs hopen, not_prefix_of_suffix hs hbraces⟩
  rcases literal_cases_of_not_startsText hstarts with rfl | ⟨more, hmore⟩
  · obtain ⟨front, rfl⟩ := hs
    have hsame : s.getLast? = (front ++ s).getLast? := by
      rw [List.getLast?_append_of_ne_nil _ hne]
    exact not_startsMark_before_close hne (hsame ▸ hlast rfl) hmark
  · rw [hmore, List.append_assoc]
    exact not_startsMark_before_open hne hmark

/-- Outside of all spans, no opening mark begins in a text of a normal form. -/
theorem Apart.not_openMark (h : Apart false chars t) (hne : s ≠ []) (hs : s <:+ chars) :
    ¬ openMark <+: s ++ t.literal := by
  obtain ⟨-, hstarts, hopen, -⟩ := h
  have hmark : ¬ openMark <+: s := not_prefix_of_suffix hs hopen
  rcases literal_cases_of_not_startsText hstarts with rfl | ⟨more, hmore⟩
  · rwa [literal, List.append_nil]
  · rw [hmore]
    exact not_openMark_before_open hne hmark

/-! ## §3. Reading a normal form back -/

/-- Text in which no mark begins is read as text inside of a span. -/
theorem body_pushChars (hne : chars ≠ [])
    (hmark : ∀ s, s ≠ [] → s <:+ chars → ¬ StartsMark (s ++ following))
    (h : Body following t rest) : Body (chars ++ following) (pushChars chars t) rest := by
  induction chars with
  | nil => exact absurd rfl hne
  | cons c chars ih =>
    have hc : ¬ StartsMark (c :: (chars ++ following)) :=
      hmark (c :: chars) (List.cons_ne_nil _ _) List.suffix_rfl
    by_cases hchars : chars = []
    · subst hchars
      rw [pushChars_singleton]
      exact Body.char hc h
    · rw [pushChars_cons]
      refine Body.char hc (ih hchars fun s hs hsuffix => ?_)
      exact hmark s hs (hsuffix.trans (List.suffix_cons c chars))

/-- Text in which no opening mark begins is read as text outside of all spans. -/
theorem ofChars_append (hne : chars ≠ [])
    (hmark : ∀ s, s ≠ [] → s <:+ chars → ¬ openMark <+: s ++ following) :
    ofChars (chars ++ following) = pushChars chars (ofChars following) := by
  induction chars with
  | nil => exact absurd rfl hne
  | cons c chars ih =>
    have hc : ¬ openMark <+: c :: (chars ++ following) :=
      hmark (c :: chars) (List.cons_ne_nil _ _) List.suffix_rfl
    rw [List.cons_append, ofChars_cons hc]
    by_cases hchars : chars = []
    · subst hchars
      rw [pushChars_singleton]
      rfl
    · rw [pushChars_cons,
        ih hchars fun s hs hsuffix => hmark s hs (hsuffix.trans (List.suffix_cons c chars))]

theorem pushChars_of_not_startsText (h : t.startsText = false) (chars : List Char) :
    pushChars chars t = .text chars t := by
  cases t with
  | text chars rest => cases h
  | done | span => rfl

/-- **Inside of a span a normal form is read back** from its text, up to the closing mark. -/
theorem body_literal (h : t.Normal true) (rest : List Char) :
    Body (t.literal ++ (closeMark ++ rest)) t rest := by
  induction t generalizing rest with
  | done => exact Body.close rest
  | text chars t ih =>
    obtain ⟨hapart, hnormal⟩ := h
    have hbody := body_pushChars hapart.1
      (fun s hne hs => hapart.not_startsMark hne hs) (ih hnormal rest)
    rwa [pushChars_of_not_startsText hapart.2.1, ← List.append_assoc] at hbody
  | span body t ihbody ih =>
    obtain ⟨hbody, hnormal⟩ := h
    have hspan := Body.span (ihbody hbody (t.literal ++ (closeMark ++ rest))) (ih hnormal rest)
    simpa only [literal, List.append_assoc] using hspan

/-- **Outside of all spans a normal form is read back** from its text. -/
theorem ofChars_literal (h : t.Normal false) : ofChars t.literal = t := by
  induction t with
  | done => exact ofChars_nil
  | text chars t ih =>
    obtain ⟨hapart, hnormal⟩ := h
    rw [literal, ofChars_append hapart.1 fun s hne hs => hapart.not_openMark hne hs, ih hnormal,
      pushChars_of_not_startsText hapart.2.1]
  | span body t _ ih =>
    obtain ⟨hbody, hnormal⟩ := h
    have hliteral : (Template.span body t).literal
        = openMark ++ (body.literal ++ (closeMark ++ t.literal)) := by
      simp only [literal, List.append_assoc]
    rw [hliteral, ofChars_of_body (body_literal hbody t.literal), ih hnormal]

/-! ## §4. Readings are normal forms -/

theorem not_infix_singleton {mark : List Char} (hmark : 2 ≤ mark.length) (c : Char) :
    ¬ mark <:+: [c] := by
  intro h
  have hle : mark.length ≤ [c].length := h.length_le
  rw [List.length_singleton] at hle
  omega

theorem apart_singleton {inside : Bool} {c : Char} (hstarts : t.startsText = false)
    (hlast : inside = true → t = .done → c ≠ '}') : Apart inside [c] t := by
  refine ⟨List.cons_ne_nil _ _, hstarts, not_infix_singleton (by decide) c, fun hinside => ?_⟩
  refine ⟨not_infix_singleton (by decide) c, fun hdone hc => ?_⟩
  exact hlast hinside hdone (Option.some.inj hc)

/-- A text is a character longer, as long as no mark begins with the character. -/
theorem Apart.cons {inside : Bool} {c : Char} (h : Apart inside chars t)
    (hopen : ¬ openMark <+: c :: chars) (hclose : inside = true → ¬ closeMark <+: c :: chars) :
    Apart inside (c :: chars) t := by
  obtain ⟨hne, hstarts, hnoOpen, hinner⟩ := h
  refine ⟨List.cons_ne_nil _ _, hstarts, ?_, fun hinside => ?_⟩
  · exact fun hmark => (List.infix_cons_iff.1 hmark).elim hopen hnoOpen
  · obtain ⟨hnoClose, hlast⟩ := hinner hinside
    refine ⟨fun hmark => (List.infix_cons_iff.1 hmark).elim (hclose hinside) hnoClose, ?_⟩
    intro hdone
    rw [List.getLast?_cons_of_ne_nil hne]
    exact hlast hdone

/-- A character in front of a normal form makes a normal form with it, if no mark begins with
    the character. -/
theorem normal_pushChar {inside : Bool} {c : Char} (h : t.Normal inside)
    (hopen : ¬ openMark <+: c :: t.literal)
    (hclose : inside = true → ¬ closeMark <+: c :: (t.literal ++ closeMark)) :
    (pushChar c t).Normal inside := by
  cases t with
  | done =>
    refine ⟨apart_singleton rfl fun hinside _ hc => ?_, h⟩
    subst hc
    exact hclose hinside ⟨['}'], rfl⟩
  | span body rest =>
    exact ⟨apart_singleton rfl fun _ hdone => Template.noConfusion hdone, h⟩
  | text chars rest =>
    obtain ⟨hapart, hnormal⟩ := h
    refine ⟨hapart.cons ?_ ?_, hnormal⟩
    · exact fun hmark => hopen (hmark.trans (List.prefix_append (c :: chars) rest.literal))
    · intro hinside hmark
      refine hclose hinside (hmark.trans ?_)
      rw [literal, List.append_assoc]
      exact List.prefix_append (c :: chars) _

/-- What a span holds is a normal form. -/
theorem normal_of_body (h : Body s t rest) : t.Normal true := by
  induction h with
  | close rest => trivial
  | span hinner hrest ihinner ihrest => exact ⟨ihinner, ihrest⟩
  | @char c next rest t hmark hnext ih =>
    obtain ⟨hopen, hclose⟩ := not_or.1 hmark
    rw [literal_of_body hnext] at hopen hclose
    refine normal_pushChar ih (fun hfront => hopen (hfront.trans ?_))
      (fun _ hfront => hclose (hfront.trans ?_))
    · rw [List.append_assoc]
      exact List.prefix_append (c :: t.literal) _
    · exact List.prefix_append (c :: (t.literal ++ closeMark)) rest

theorem normal_of_closed (h : Closed s t) (hs : t.literal = s) : t.Normal false := by
  induction h with
  | nil => trivial
  | @span inside behind inner t hinner hrest ih =>
    refine ⟨normal_of_body hinner, ih ?_⟩
    rw [literal_of_body hinner] at hs
    simpa only [literal, List.append_assoc, List.append_cancel_left_eq] using hs
  | @char c next t hopen hrest ih =>
    rw [literal_pushChar, List.cons.injEq] at hs
    refine normal_pushChar (ih hs.2) (by rwa [hs.2]) (fun h => Bool.noConfusion h)

theorem closed_of_normal (h : t.Normal false) : t.closed = true := by
  induction t with
  | done => rfl
  | span body t _ ih => exact ih h.2
  | text chars t ih =>
    obtain ⟨⟨-, -, hopen, -⟩, hnormal⟩ := h
    rw [closed, ih hnormal, Bool.and_true, Bool.not_eq_true', ← Bool.not_eq_true, occursIn_iff]
    exact hopen

/-- **What is read is a normal form exactly if no span is left open.** -/
theorem normal_ofChars_iff (s : List Char) :
    (ofChars s).Normal false ↔ (ofChars s).closed = true :=
  ⟨closed_of_normal, fun h => normal_of_closed (closed_ofChars h) (literal_ofChars s)⟩

/-! ## §5. Texts and templates -/

/-- **Texts and templates determine each other.**  One pass with a stack of open spans and the
    reading by recursion are one; whatever the text, it is the text of what is read; and every
    template in normal form is read back from its text. -/
theorem reading_exact :
    (∀ s : List Char, ofStack s = ofChars s ∧ (ofChars s).literal = s) ∧
      ∀ t : Template, t.Normal false → ofChars t.literal = t :=
  ⟨fun s => ⟨ofStack_eq_ofChars s, literal_ofChars s⟩, fun _ h => ofChars_literal h⟩

/-- A step of a scale whose name holds a span, between stray braces, and a span without a
    name. -/
def scaleTemplate : Template :=
  .text "a\x7d\x7d$".toList <|
    .span (.text " \x7bscale\x7d.".toList
        (.span (.text " size".toList .done) (.text "\x7dx".toList .done))) <|
      .text "\x7d".toList (.span .done .done)

/-- The text of the step. -/
def scaleStep : String :=
  "a\x7d\x7d$$\x7b\x7b \x7bscale\x7d.$\x7b\x7b size\x7d\x7d\x7dx\x7d\x7d\x7d$\x7b\x7b\x7d\x7d"

theorem reading_exact_scale :
    scaleTemplate.Normal false ∧ scaleTemplate.literal = scaleStep.toList ∧
      ofChars scaleTemplate.literal = scaleTemplate :=
  ⟨by decide +kernel, by decide +kernel, reading_exact.2 scaleTemplate (by decide +kernel)⟩

end DesignTokens.Template
