/-
  DesignTokens.Proofs.Template.Reading — how a text is read again that a pass has written.

  Filling the spans of a text writes values, which hold no marks, and spans that are kept for
  later.  Text that a pass leaves alone stands next to either.  `Reads` follows what is written
  from the front: inside a span and in front of a blank, such a text is read back character by
  character and span by span, and no mark arises that was not written as one.

  Main facts:
    * `body?_of_body`, `body_of_body?` — the bodies of spans, read as a relation.
    * `exists_body_of_reads` — a text that is read inside a span is the body of that span.
    * `reads_trim` — nor does it matter which blanks stand around it.
    * `render_ofChars_keptSpan` — a kept span is read again as a span of the same name.
-/
import DesignTokens.Proofs.Outcome
import DesignTokens.Template.Resolve

namespace DesignTokens

namespace Template

/-! ## §1. Marks -/

/-- Whether a text starts with a mark, opening or closing. -/
def StartsMark (s : List Char) : Prop := openMark <+: s ∨ closeMark <+: s

theorem openMark_prefix_iff {c : Char} {next : List Char} :
    openMark <+: c :: next ↔ c = '$' ∧ ['{', '{'] <+: next := by
  unfold openMark
  rw [List.cons_prefix_cons]
  exact and_congr_left fun _ => eq_comm

theorem closeMark_prefix_iff {c : Char} {next : List Char} :
    closeMark <+: c :: next ↔ c = '}' ∧ ['}'] <+: next := by
  unfold closeMark
  rw [List.cons_prefix_cons]
  exact and_congr_left fun _ => eq_comm

/-- Only a dollar or a closing brace starts a mark. -/
theorem not_startsMark_of_ne {c : Char} (hdollar : c ≠ '$') (hbrace : c ≠ '}')
    (next : List Char) : ¬ StartsMark (c :: next) := by
  rintro (h | h)
  · exact hdollar (openMark_prefix_iff.1 h).1
  · exact hbrace (closeMark_prefix_iff.1 h).1

/-- A character that a mark does not hold does not complete it. -/
theorem prefix_of_prefix_append_cons {mark s following : List Char} {c : Char} (hc : c ∉ mark)
    (h : mark <+: s ++ c :: following) : mark <+: s := by
  induction s generalizing mark with
  | nil =>
    cases mark with
    | nil => exact List.nil_prefix
    | cons m mark =>
      obtain ⟨rfl, -⟩ := List.cons_prefix_cons.1 h
      exact absurd List.mem_cons_self hc
  | cons d s ih =>
    cases mark with
    | nil => exact List.nil_prefix
    | cons m mark =>
      obtain ⟨rfl, hrest⟩ := List.cons_prefix_cons.1 h
      have hmark : c ∉ mark := fun hmem => hc (List.mem_cons_of_mem _ hmem)
      exact List.cons_prefix_cons.2 ⟨rfl, ih hmark hrest⟩

/-- Nor does it begin among characters that it does not hold. -/
theorem infix_of_infix_append {mark front s : List Char} (hne : mark ≠ [])
    (hfront : ∀ c ∈ front, c ∉ mark) (h : mark <:+: front ++ s) : mark <:+: s := by
  induction front with
  | nil => exact h
  | cons c front ih =>
    obtain ⟨hc, hrest⟩ := List.forall_mem_cons.1 hfront
    rw [List.cons_append, List.infix_cons_iff] at h
    rcases h with hprefix | hinfix
    · obtain ⟨m, mark, rfl⟩ := List.exists_cons_of_ne_nil hne
      obtain ⟨rfl, -⟩ := List.cons_prefix_cons.1 hprefix
      exact absurd List.mem_cons_self hc
    · exact ih hrest hinfix

theorem not_startsMark_append_blank {s : List Char} (h : ¬ StartsMark s)
    (following : List Char) : ¬ StartsMark (s ++ ' ' :: following) := by
  rintro (hopen | hclose)
  · exact h (Or.inl (prefix_of_prefix_append_cons (by decide) hopen))
  · exact h (Or.inr (prefix_of_prefix_append_cons (by decide) hclose))

/-! ## §2. Bodies -/

/-- The text is that of a body, its closing mark and what follows the mark. -/
inductive Body : List Char → Template → List Char → Prop where
  | close (rest : List Char) : Body (closeMark ++ rest) .done rest
  | span {inside behind rest : List Char} {inner t : Template} :
    Body inside inner behind → Body behind t rest →
      Body (openMark ++ inside) (.span inner t) rest
  | char {c : Char} {next rest : List Char} {t : Template} :
    ¬ StartsMark (c :: next) → Body next t rest → Body (c :: next) (pushChar c t) rest

theorem body_of_body? {s : List Char} {t : Template} {r : { r : List Char // r.length < s.length }}
    (h : body? s = some (t, r)) : Body s t r.val := by
  fun_induction body? s generalizing t with
  | case1 => simp at h
  | case2 rest =>
    obtain ⟨rfl, rfl⟩ : Template.done = t ∧ _ = r := by simpa using h
    exact Body.close rest
  | case3 inside hinner ih => simp at h
  | case4 inside inner behind hlt hinner hrest ih₁ ih₂ => simp at h
  | case5 inside inner behind h₁ hinner t' rest h₂ hrest ih₁ ih₂ =>
    obtain ⟨rfl, rfl⟩ : Template.span inner t' = t ∧ _ = r := by simpa using h
    exact Body.span (ih₁ hinner) (ih₂ hrest)
  | case6 c next hc₁ hc₂ hnext ih => simp at h
  | case7 c next hc₁ hc₂ t' rest hlt hnext ih =>
    obtain ⟨rfl, rfl⟩ : pushChar c t' = t ∧ _ = r := by simpa using h
    refine Body.char ?_ (ih hnext)
    rintro (hopen | hclose)
    · obtain ⟨rfl, inside, rfl⟩ := openMark_prefix_iff.1 hopen
      exact hc₂ inside rfl rfl
    · obtain ⟨rfl, rest, rfl⟩ := closeMark_prefix_iff.1 hclose
      exact hc₁ rest rfl rfl

theorem body?_of_body {s : List Char} {t : Template} {rest : List Char} (h : Body s t rest) :
    ∃ hlt : rest.length < s.length, body? s = some (t, ⟨rest, hlt⟩) := by
  induction h with
  | close rest =>
    have hlt : rest.length < (closeMark ++ rest).length := by
      show rest.length < rest.length + 1 + 1
      omega
    refine ⟨hlt, ?_⟩
    show body? ('}' :: '}' :: rest) = _
    rw [body?]
    rfl
  | @span inside behind rest inner t hinner hrest ih₁ ih₂ =>
    obtain ⟨h₁, hinside⟩ := ih₁
    obtain ⟨h₂, hbehind⟩ := ih₂
    refine ⟨by simp only [openMark, List.length_append]; omega, ?_⟩
    show body? ('$' :: '{' :: '{' :: inside) = _
    rw [body?, hinside]
    dsimp only
    rw [hbehind]
    rfl
  | @char c next rest t hmark hnext ih =>
    obtain ⟨hlt, hbody⟩ := ih
    refine ⟨Nat.lt_succ_of_lt hlt, ?_⟩
    rw [body?, hbody]
    · intro rest hc hnext
      exact hmark (Or.inr (closeMark_prefix_iff.2 ⟨hc, rest, hnext.symm⟩))
    · intro inside hc hnext
      exact hmark (Or.inl (openMark_prefix_iff.2 ⟨hc, inside, hnext.symm⟩))

theorem literal_of_body {s : List Char} {t : Template} {rest : List Char} (h : Body s t rest) :
    s = t.literal ++ closeMark ++ rest := by
  obtain ⟨_, hbody⟩ := body?_of_body h
  exact literal_body hbody

/-! ## §3. Taking a text apart, step by step -/

theorem ofChars_nil : ofChars [] = .done := by
  rw [ofChars]

theorem ofChars_of_body {inside behind : List Char} {inner : Template}
    (h : Body inside inner behind) :
    ofChars (openMark ++ inside) = .span inner (ofChars behind) := by
  obtain ⟨_, hbody⟩ := body?_of_body h
  show ofChars ('$' :: '{' :: '{' :: inside) = _
  rw [ofChars, hbody]

theorem ofChars_of_unclosed {inside : List Char} (h : body? inside = none) :
    ofChars (openMark ++ inside) = .text (openMark ++ inside) .done := by
  show ofChars ('$' :: '{' :: '{' :: inside) = _
  rw [ofChars, h]
  rfl

theorem ofChars_cons {c : Char} {next : List Char} (h : ¬ openMark <+: c :: next) :
    ofChars (c :: next) = pushChar c (ofChars next) := by
  rw [ofChars]
  intro inside hc hnext
  exact h (openMark_prefix_iff.2 ⟨hc, inside, hnext.symm⟩)

end Template

/-! ## §4. Rendering, step by step -/

/-- The text of a span and of what follows it, from the texts of its body and of what
    follows. -/
def Variables.spanText (vars : Variables) (body following : Except VariableError (List Char)) :
    Except VariableError (List Char) := do
  let written ← body
  let filled ← vars.fill (String.ofList (Text.trim written))
  let rest ← following
  return filled ++ rest

namespace Template

theorem render_span (vars : Variables) (body rest : Template) :
    (Template.span body rest).render vars
      = vars.spanText (body.render vars) (rest.render vars) := rfl

theorem render_text (vars : Variables) (chars : List Char) (rest : Template) :
    (Template.text chars rest).render vars = (rest.render vars).map (chars ++ ·) := by
  show (do let following ← rest.render vars; pure (chars ++ following)) = _
  cases rest.render vars <;> rfl

theorem render_text_done (vars : Variables) (chars : List Char) :
    (Template.text chars .done).render vars = .ok chars := by
  rw [render_text]
  exact congrArg Except.ok (List.append_nil chars)

theorem render_pushChar (vars : Variables) (c : Char) (t : Template) :
    (pushChar c t).render vars = (t.render vars).map (c :: ·) := by
  cases t with
  | done => rfl
  | span body rest => exact render_text vars [c] (.span body rest)
  | text chars rest =>
    show (Template.text (c :: chars) rest).render vars = _
    rw [render_text, render_text]
    cases rest.render vars <;> rfl

theorem spanText_eq_ok_iff {vars : Variables} {body following : Except VariableError (List Char)}
    {u : List Char} :
    vars.spanText body following = .ok u ↔
      ∃ written filled rest, body = .ok written ∧
        vars.fill (String.ofList (Text.trim written)) = .ok filled ∧ following = .ok rest ∧
          filled ++ rest = u := by
  unfold Variables.spanText
  constructor
  · intro h
    obtain ⟨written, hwritten, h⟩ := bind_eq_ok_iff.1 h
    obtain ⟨filled, hfilled, h⟩ := bind_eq_ok_iff.1 h
    obtain ⟨rest, hrest, h⟩ := bind_eq_ok_iff.1 h
    exact ⟨written, filled, rest, hwritten, hfilled, hrest, Except.ok.inj h⟩
  · rintro ⟨written, filled, rest, rfl, hfilled, rfl, rfl⟩
    exact bind_eq_ok_iff.2 ⟨written, rfl, bind_eq_ok_iff.2 ⟨filled, hfilled, rfl⟩⟩

/-- Blanks around the text of a body do not matter to its span. -/
theorem spanText_padded (vars : Variables) (body following : Except VariableError (List Char)) :
    vars.spanText ((body.map (· ++ [' '])).map (' ' :: ·)) following
      = vars.spanText body following := by
  cases body with
  | error e => rfl
  | ok written =>
    have htrim : Text.trim (' ' :: (written ++ [' '])) = Text.trim written := by
      have hblank : ∀ b ∈ [' '], Text.isBlank b = true := by
        intro b hb
        rw [List.mem_singleton.1 hb]
        decide
      exact Text.trim_blanks hblank hblank written
    show vars.spanText (.ok (' ' :: (written ++ [' ']))) following = _
    unfold Variables.spanText
    simp only [bind, Except.bind]
    rw [htrim]

theorem spanText_map (vars : Variables) (body following : Except VariableError (List Char))
    (back : List Char) :
    vars.spanText body (following.map (· ++ back))
      = (vars.spanText body following).map (· ++ back) := by
  unfold Variables.spanText
  cases body with
  | error e => rfl
  | ok written =>
    simp only [bind, Except.bind]
    cases vars.fill (String.ofList (Text.trim written)) with
    | error e => rfl
    | ok filled =>
      cases following with
      | error e => rfl
      | ok rest =>
        show Except.ok (filled ++ (rest ++ back)) = Except.ok (filled ++ rest ++ back)
        rw [List.append_assoc]

/-! ## §5. Reading again what a pass has written -/

/-- Inside a span and in front of a blank, the text is read so that `vars` makes `result` of
    it: characters stand for themselves, and spans are written with one blank on either side of
    what they hold. -/
inductive Reads (vars : Variables) : List Char → Except VariableError (List Char) → Prop where
  | nil : Reads vars [] (.ok [])
  | char {c : Char} {s : List Char} {result : Except VariableError (List Char)} :
    ¬ StartsMark (c :: s) → Reads vars s result → Reads vars (c :: s) (result.map (c :: ·))
  | span {name s : List Char} {inner result : Except VariableError (List Char)} :
    Reads vars name inner → Reads vars s result →
      Reads vars (keptSpan (String.ofList name) ++ s) (vars.spanText inner result)

variable {vars : Variables} {s : List Char} {result : Except VariableError (List Char)}

theorem keptSpan_ofList_append (name s : List Char) :
    keptSpan (String.ofList name) ++ s
      = openMark ++ ' ' :: (name ++ ' ' :: (closeMark ++ s)) := by
  unfold keptSpan
  rw [String.toList_ofList]
  simp only [List.append_assoc, List.cons_append]

theorem not_startsMark_blank (s : List Char) : ¬ StartsMark (' ' :: s) :=
  not_startsMark_of_ne (by decide) (by decide) s

/-- **A text that is read inside a span is the body of that span**, with a blank behind it. -/
theorem exists_body_of_reads (h : Reads vars s result) (following : List Char) :
    ∃ t, Body (s ++ ' ' :: (closeMark ++ following)) t following ∧
      t.render vars = result.map (· ++ [' ']) := by
  induction h generalizing following with
  | nil =>
    -- nothing is left but the blank in front of the closing mark
    exact ⟨_, Body.char (not_startsMark_blank _) (Body.close following), rfl⟩
  | @char c s result hmark hs ih =>
    obtain ⟨t, hbody, hrender⟩ := ih following
    refine ⟨pushChar c t, Body.char (not_startsMark_append_blank hmark _) hbody, ?_⟩
    rw [render_pushChar, hrender]
    cases result <;> rfl
  | @span name s inner result hname hs ihname ihs =>
    obtain ⟨t, hbody, hrender⟩ := ihs following
    obtain ⟨t', hbody', hrender'⟩ := ihname (s ++ ' ' :: (closeMark ++ following))
    refine ⟨.span (pushChar ' ' t') t, ?_, ?_⟩
    · rw [List.append_assoc, keptSpan_ofList_append]
      exact Body.span (Body.char (not_startsMark_blank _) hbody') hbody
    · rw [render_span, render_pushChar, hrender', hrender, spanText_padded, spanText_map]

/-- **A kept span is read again as a span of the same name.** -/
theorem render_ofChars_keptSpan {name : List Char} (h : Reads vars name result)
    (following : List Char) :
    (ofChars (keptSpan (String.ofList name) ++ following)).render vars
      = vars.spanText result ((ofChars following).render vars) := by
  obtain ⟨t, hbody, hrender⟩ := exists_body_of_reads h following
  rw [keptSpan_ofList_append, ofChars_of_body (Body.char (not_startsMark_blank _) hbody),
    render_span, render_pushChar, hrender, spanText_padded]

/-! ## §6. Blanks at the ends -/

theorem reads_of_blank_cons {b : Char} (hb : Text.isBlank b = true)
    (h : Reads vars (b :: s) result) :
    ∃ result', Reads vars s result' ∧ result = result'.map (b :: ·) := by
  generalize htext : b :: s = text at h
  cases h with
  | nil => cases htext
  | char hmark hs =>
    cases htext
    exact ⟨_, hs, rfl⟩
  | span hname hs =>
    obtain rfl : b = '$' := by
      rw [keptSpan_ofList_append] at htext
      exact (List.cons.inj htext).1
    exact absurd hb (by decide)

theorem reads_of_append_blank {b : Char} (hb : Text.isBlank b = true)
    (h : Reads vars (s ++ [b]) result) :
    ∃ result', Reads vars s result' ∧ result = result'.map (· ++ [b]) := by
  generalize htext : s ++ [b] = text at h
  induction h generalizing s with
  | nil => simp at htext
  | @char c text result hmark htail ih =>
    cases s with
    | nil =>
      -- the blank is all there is
      obtain ⟨rfl, rfl⟩ := List.cons.inj htext
      refine ⟨.ok [], Reads.nil, ?_⟩
      generalize hnil : ([] : List Char) = tail at htail
      cases htail with
      | nil => rfl
      | char => cases hnil
      | span => rw [keptSpan_ofList_append] at hnil; cases hnil
    | cons d s =>
      obtain ⟨rfl, hrest⟩ := List.cons.inj htext
      obtain ⟨result', hs, rfl⟩ := ih hrest
      refine ⟨result'.map (d :: ·), Reads.char ?_ hs, ?_⟩
      · have hmark : ¬ StartsMark ((d :: s) ++ [b]) := by rwa [← hrest] at hmark
        rintro (hopen | hclose)
        · exact hmark (Or.inl (List.prefix_append_of_prefix hopen))
        · exact hmark (Or.inr (List.prefix_append_of_prefix hclose))
      · cases result' <;> rfl
  | @span name text inner result hname htail ihname ih =>
    rcases List.eq_nil_or_concat text with rfl | ⟨front, last, rfl⟩
    · -- a span ends with its closing mark, not with a blank
      have hlast : [b] = ['}'] := by
        rw [List.append_nil] at htext
        unfold keptSpan closeMark at htext
        rw [show ' ' :: ['}', '}'] = [' ', '}'] ++ ['}'] from rfl, ← List.append_assoc] at htext
        exact List.append_inj_right' htext rfl
      cases hlast
      exact absurd hb (by decide)
    · rw [List.concat_eq_append, ← List.append_assoc] at htext
      obtain ⟨rfl, hlast⟩ := List.append_inj' htext rfl
      cases hlast
      obtain ⟨result', hfront, rfl⟩ := ih (s := front) (by rw [List.concat_eq_append])
      exact ⟨_, Reads.span hname hfront, spanText_map vars inner result' [b]⟩

theorem reads_of_blanks_append {front : List Char}
    (hfront : ∀ b ∈ front, Text.isBlank b = true) (h : Reads vars (front ++ s) result) :
    ∃ result', Reads vars s result' ∧ result = result'.map (front ++ ·) := by
  induction front generalizing result with
  | nil => exact ⟨result, h, by cases result <;> rfl⟩
  | cons b front ih =>
    have hb : Text.isBlank b = true := hfront b List.mem_cons_self
    obtain ⟨tail, htail, rfl⟩ := reads_of_blank_cons hb h
    obtain ⟨result', hs, rfl⟩ := ih (fun x hx => hfront x (List.mem_cons_of_mem _ hx)) htail
    exact ⟨result', hs, by cases result' <;> rfl⟩

theorem reads_of_append_blanks {back : List Char}
    (hback : ∀ b ∈ back, Text.isBlank b = true) (h : Reads vars (s ++ back) result) :
    ∃ result', Reads vars s result' ∧ result = result'.map (· ++ back) := by
  induction back generalizing s result with
  | nil =>
    rw [List.append_nil] at h
    refine ⟨result, h, ?_⟩
    cases result with
    | error e => rfl
    | ok y => exact congrArg Except.ok (List.append_nil y).symm
  | cons b back ih =>
    have hb : Text.isBlank b = true := hback b List.mem_cons_self
    rw [List.append_cons] at h
    obtain ⟨front, hinit, rfl⟩ := ih (fun x hx => hback x (List.mem_cons_of_mem _ hx)) h
    obtain ⟨result', hs, rfl⟩ := reads_of_append_blank hb hinit
    refine ⟨result', hs, ?_⟩
    cases result' with
    | error e => rfl
    | ok y => exact congrArg Except.ok (List.append_cons y b back).symm

/-- **The blanks around a text do not matter to how it is read.** -/
theorem reads_trim (h : Reads vars s result) :
    ∃ result', Reads vars (Text.trim s) result' ∧
      ∀ y', result' = .ok y' → ∃ y, result = .ok y ∧ Text.trim y = Text.trim y' := by
  obtain ⟨front, back, hfront, hback, hs⟩ := Text.exists_eq_blanks_trim s
  rw [hs, List.append_assoc] at h
  obtain ⟨tail, htail, rfl⟩ := reads_of_blanks_append hfront h
  obtain ⟨result', htext, rfl⟩ := reads_of_append_blanks hback htail
  refine ⟨result', htext, ?_⟩
  rintro y' rfl
  refine ⟨front ++ (y' ++ back), rfl, ?_⟩
  rw [← List.append_assoc]
  exact Text.trim_blanks hfront hback y'

end Template

end DesignTokens
