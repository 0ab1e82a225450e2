/-
  DesignTokens.Proofs.Template.Stack — reading a text in one pass, with a stack of open spans.

  A text can be taken apart without reading ahead for the end of a span.  The stack holds what
  has been read of every span that is open, the innermost one on top and the text outside of all
  spans at the bottom.  An opening mark puts an empty frame on the stack.  A closing mark takes
  the top frame away and leaves a span in the frame below; at the bottom of the stack it is
  text.  Everything up to the next mark is text.  What is open at the end of the text becomes
  text again, from the top of the stack to the bottom.

  A frame is what has been read so far, so the reading of the rest belongs behind it: `join`
  puts one template behind another.  It is associative, which is all that the stack needs.

  Main facts:
    * `readFrom_of_body` — a span that is closed leaves the stack as it was, and one span more.
    * `readFrom_of_unclosed` — a span that is left open becomes text with all that follows.
    * `ofStack_eq_ofChars` — one pass with a stack reads what `ofChars` reads.
-/
import DesignTokens.Proofs.Template.Reading

namespace DesignTokens.Template

/-! ## §1. One template behind another -/

/-- Puts text in front of a template, into the text it starts with. -/
def pushChars (chars : List Char) : Template → Template
  | .text more rest => .text (chars ++ more) rest
  | t => .text chars t

/-- One template behind another.  Texts that touch become one text. -/
def join : Template → Template → Template
  | .done, u => u
  | .text chars .done, u => pushChars chars u
  | .text chars rest, u => .text chars (rest.join u)
  | .span body rest, u => .span body (rest.join u)

/-- Puts text behind a template, into the text it ends with. -/
def pushText (t : Template) (chars : List Char) : Template := t.join (.text chars .done)

/-- Puts a span behind a template. -/
def pushSpan (t body : Template) : Template := t.join (.span body .done)

theorem pushChars_append (front back : List Char) (t : Template) :
    pushChars (front ++ back) t = pushChars front (pushChars back t) := by
  cases t with
  | text chars rest => exact congrArg (Template.text · rest) (List.append_assoc front back chars)
  | done | span => rfl

theorem pushChars_singleton (c : Char) (t : Template) : pushChars [c] t = pushChar c t := by
  cases t <;> rfl

/-- Text is put in front of a template character by character. -/
theorem pushChars_cons (c : Char) (chars : List Char) (t : Template) :
    pushChars (c :: chars) t = pushChar c (pushChars chars t) := by
  cases t <;> rfl

theorem join_text_of_ne_done {rest : Template} (h : rest ≠ .done) (chars : List Char)
    (u : Template) : (Template.text chars rest).join u = .text chars (rest.join u) := by
  cases rest with
  | done => exact absurd rfl h
  | text | span => rfl

theorem join_ne_done {t : Template} (h : t ≠ .done) (u : Template) : t.join u ≠ .done := by
  cases t with
  | done => exact absurd rfl h
  | span body rest => exact Template.noConfusion
  | text chars rest =>
    cases rest with
    | done => cases u <;> exact Template.noConfusion
    | text | span => exact Template.noConfusion

theorem join_done (t : Template) : t.join .done = t := by
  induction t with
  | done => rfl
  | span body rest _ ih => exact congrArg (Template.span body) ih
  | text chars rest ih =>
    cases rest with
    | done => rfl
    | text | span => exact congrArg (Template.text chars) ih

theorem join_pushChars (chars : List Char) (t u : Template) :
    (pushChars chars t).join u = pushChars chars (t.join u) := by
  cases t with
  | done | span => rfl
  | text more rest =>
    cases rest with
    | done => exact pushChars_append chars more u
    | text | span => rfl

theorem join_assoc (t u v : Template) : (t.join u).join v = t.join (u.join v) := by
  induction t with
  | done => rfl
  | span body rest _ ih => exact congrArg (Template.span body) ih
  | text chars rest ih =>
    by_cases hrest : rest = .done
    · subst hrest
      exact join_pushChars chars u v
    · rw [join_text_of_ne_done hrest, join_text_of_ne_done (join_ne_done hrest u), ih,
        join_text_of_ne_done hrest]

@[simp] theorem literal_pushChars (chars : List Char) (t : Template) :
    (pushChars chars t).literal = chars ++ t.literal := by
  cases t with
  | text more rest => exact List.append_assoc chars more rest.literal
  | done | span => rfl

@[simp] theorem literal_join (t u : Template) : (t.join u).literal = t.literal ++ u.literal := by
  induction t with
  | done => rfl
  | span body rest _ ih => simp [join, literal, ih]
  | text chars rest ih =>
    by_cases hrest : rest = .done
    · subst hrest
      simp [join, literal]
    · rw [join_text_of_ne_done hrest, literal, literal, ih, List.append_assoc]

@[simp] theorem literal_pushText (t : Template) (chars : List Char) :
    (t.pushText chars).literal = t.literal ++ chars := by
  simp [pushText, literal]

@[simp] theorem literal_pushSpan (t body : Template) :
    (t.pushSpan body).literal = t.literal ++ openMark ++ body.literal ++ closeMark := by
  simp [pushSpan, literal]

/-- Text that follows text is one text with it. -/
theorem pushText_pushText (t : Template) (front back : List Char) :
    (t.pushText front).pushText back = t.pushText (front ++ back) :=
  join_assoc t (.text front .done) (.text back .done)

/-- A character behind a template, in front of another. -/
theorem join_pushText_singleton (t u : Template) (c : Char) :
    (t.pushText [c]).join u = t.join (pushChar c u) := by
  rw [pushText, join_assoc, ← pushChars_singleton]
  rfl

/-! ## §2. The stack -/

/-- The text in front of the next mark, and the text from the mark on. -/
def untilMark : List Char → List Char × List Char
  | [] => ([], [])
  | c :: next =>
    if openMark.isPrefixOf (c :: next) || closeMark.isPrefixOf (c :: next) then ([], c :: next)
    else (c :: (untilMark next).1, (untilMark next).2)

theorem length_untilMark (s : List Char) : (untilMark s).2.length ≤ s.length := by
  induction s with
  | nil => exact Nat.le_refl _
  | cons c next ih =>
    rw [untilMark]
    split
    · exact Nat.le_refl _
    · exact Nat.le_succ_of_le ih

/-- What is open at the end of a text becomes text, together with its opening mark. -/
def closeAll (frame : Template) : List Template → Template
  | [] => frame
  | parent :: outer => closeAll (parent.pushText (openMark ++ frame.literal)) outer

/-- Reads on behind a frame, with the frames of the spans around it on the stack. -/
def readFrom (frame : Template) (outer : List Template) (s : List Char) : Template :=
  match s, outer with
  | [], outer => closeAll frame outer
  | '$' :: '{' :: '{' :: inside, outer => readFrom .done (frame :: outer) inside
  | '}' :: '}' :: rest, parent :: outer => readFrom (parent.pushSpan frame) outer rest
  | c :: next, outer =>
    -- the first character is text even where a closing mark begins outside of every span
    readFrom (frame.pushText (c :: (untilMark next).1)) outer (untilMark next).2
termination_by s.length
decreasing_by
  · simp only [List.length_cons]; omega
  · simp only [List.length_cons]; omega
  · have := length_untilMark next
    simp only [List.length_cons]; omega

/-- Takes a text apart with a stack of open spans. -/
def ofStack (s : List Char) : Template := readFrom .done [] s

/-! ## §3. One step of the stack -/

variable {frame parent : Template} {outer : List Template}

theorem readFrom_nil (frame : Template) (outer : List Template) :
    readFrom frame outer [] = closeAll frame outer := by
  rw [readFrom]

theorem readFrom_open (frame : Template) (outer : List Template) (inside : List Char) :
    readFrom frame outer (openMark ++ inside) = readFrom .done (frame :: outer) inside := by
  show readFrom frame outer ('$' :: '{' :: '{' :: inside) = _
  rw [readFrom]

theorem readFrom_close (frame parent : Template) (outer : List Template) (rest : List Char) :
    readFrom frame (parent :: outer) (closeMark ++ rest)
      = readFrom (parent.pushSpan frame) outer rest := by
  show readFrom frame (parent :: outer) ('}' :: '}' :: rest) = _
  rw [readFrom]

theorem not_opens {c : Char} {next : List Char}
    (h : ∀ inside, c = '$' → next = '{' :: '{' :: inside → False) : ¬ openMark <+: c :: next := by
  intro hmark
  obtain ⟨hc, inside, hnext⟩ := openMark_prefix_iff.1 hmark
  exact h inside hc hnext.symm

theorem not_closes {c : Char} {next : List Char}
    (h : ∀ rest, c = '}' → next = '}' :: rest → False) : ¬ closeMark <+: c :: next := by
  intro hmark
  obtain ⟨hc, rest, hnext⟩ := closeMark_prefix_iff.1 hmark
  exact h rest hc hnext.symm

theorem readFrom_run {c : Char} {next : List Char} (hopen : ¬ openMark <+: c :: next)
    (hclose : outer = [] ∨ ¬ closeMark <+: c :: next) :
    readFrom frame outer (c :: next)
      = readFrom (frame.pushText (c :: (untilMark next).1)) outer (untilMark next).2 := by
  rw [readFrom]
  · intro inside hc hnext
    exact hopen (openMark_prefix_iff.2 ⟨hc, inside, hnext.symm⟩)
  · intro rest parent outer' houter hc hnext
    have hne : outer ≠ [] := by
      rw [houter]
      exact List.cons_ne_nil _ _
    exact hclose.resolve_left hne (closeMark_prefix_iff.2 ⟨hc, rest, hnext.symm⟩)

theorem untilMark_of_startsMark {s : List Char} (h : StartsMark s) : untilMark s = ([], s) := by
  cases s with
  | nil => rfl
  | cons c next =>
    rw [untilMark, if_pos]
    rw [Bool.or_eq_true, List.isPrefixOf_iff_prefix, List.isPrefixOf_iff_prefix]
    exact h

theorem untilMark_cons {c : Char} {next : List Char} (h : ¬ StartsMark (c :: next)) :
    untilMark (c :: next) = (c :: (untilMark next).1, (untilMark next).2) := by
  rw [untilMark, if_neg]
  rw [Bool.or_eq_true, List.isPrefixOf_iff_prefix, List.isPrefixOf_iff_prefix]
  exact h

/-- **Text is read character by character**: it does not matter where a run of it is cut. -/
theorem readFrom_char {c : Char} {next : List Char} (hopen : ¬ openMark <+: c :: next)
    (hclose : outer = [] ∨ ¬ closeMark <+: c :: next) :
    readFrom frame outer (c :: next) = readFrom (frame.pushText [c]) outer next := by
  rw [readFrom_run hopen hclose]
  by_cases hmark : StartsMark next
  · rw [untilMark_of_startsMark hmark]
  · cases next with
    | nil => rfl
    | cons d next =>
      obtain ⟨hnext, hbehind⟩ := not_or.1 hmark
      rw [untilMark_cons hmark, readFrom_run hnext (Or.inr hbehind), pushText_pushText]
      rfl

/-! ## §4. Whole spans -/

/-- **A span that is closed leaves the stack as it was**, with one span more behind the frame
    around it. -/
theorem readFrom_of_body {s rest : List Char} {t : Template} (h : Body s t rest)
    (frame parent : Template) (outer : List Template) :
    readFrom frame (parent :: outer) s
      = readFrom (parent.pushSpan (frame.join t)) outer rest := by
  induction h generalizing frame parent outer with
  | close rest => rw [readFrom_close, join_done]
  | @span inside behind rest inner t hinner hrest ihinner ihrest =>
    rw [readFrom_open, ihinner, ihrest, pushSpan, pushSpan, join_assoc]
    rfl
  | @char c next rest t hmark hnext ih =>
    obtain ⟨hopen, hclose⟩ := not_or.1 hmark
    rw [readFrom_char hopen (Or.inr hclose), ih, join_pushText_singleton]

/-- **A span that is left open becomes text**, together with all that follows it. -/
theorem readFrom_of_unclosed {s : List Char} (h : body? s = none) (frame parent : Template)
    (outer : List Template) :
    readFrom frame (parent :: outer) s
      = closeAll (parent.pushText (openMark ++ (frame.literal ++ s))) outer := by
  fun_induction body? s generalizing frame parent outer with
  | case1 => rw [readFrom_nil, closeAll, List.append_nil]
  | case2 rest => simp at h
  | case3 inside hinner ih =>
    -- the frame of the inner span falls back into the frame of the outer one
    show readFrom frame (parent :: outer) (openMark ++ inside) = _
    rw [readFrom_open, ih hinner, closeAll, literal_pushText]
    simp [literal, openMark]
  | case4 inside inner behind hlt hinner hrest ih₁ ih₂ =>
    have hbody : Body inside inner behind := body_of_body? hinner
    show readFrom frame (parent :: outer) (openMark ++ inside) = _
    rw [readFrom_open, readFrom_of_body hbody, ih₂ hrest, literal_pushSpan, literal_of_body hbody]
    simp [literal, openMark]
  | case5 inside inner behind h₁ hinner t rest h₂ hrest ih₁ ih₂ => simp at h
  | case6 c next hc₁ hc₂ hnext ih =>
    have hclose : ¬ closeMark <+: c :: next := not_closes hc₁
    rw [readFrom_char (not_opens hc₂) (Or.inr hclose), ih hnext, literal_pushText]
    simp
  | case7 c next hc₁ hc₂ t rest hlt hnext ih => simp at h

/-- **Outside of every span** the stack reads what `ofChars` reads, behind what it has read. -/
theorem readFrom_eq_join (frame : Template) (s : List Char) :
    readFrom frame [] s = frame.join (ofChars s) := by
  fun_induction ofChars s generalizing frame with
  | case1 => rw [readFrom_nil, join_done]; rfl
  | case2 inside hunclosed =>
    show readFrom frame [] (openMark ++ inside) = _
    rw [readFrom_open, readFrom_of_unclosed hunclosed]
    rfl
  | case3 inside inner behind hlt hinner ih =>
    show readFrom frame [] (openMark ++ inside) = _
    rw [readFrom_open, readFrom_of_body (body_of_body? hinner), ih, pushSpan, join_assoc]
    rfl
  | case4 c next hc ih =>
    rw [readFrom_char (not_opens hc) (Or.inl rfl), ih, join_pushText_singleton]

/-- **One pass with a stack takes a text apart** as `ofChars` does. -/
theorem ofStack_eq_ofChars (s : List Char) : ofStack s = ofChars s := readFrom_eq_join .done s

end DesignTokens.Template
