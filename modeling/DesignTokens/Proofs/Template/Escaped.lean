/-
  DesignTokens.Proofs.Template.Escaped — the spans of an escaped text.

  A path that is a list of segments is written as one text before its spans are filled, so they
  are filled in texts that are escaped already.  Escaping leaves the marks of spans alone and
  puts in no new ones, and no mark reaches over the slash between two segments.  An escaped
  segment therefore has the spans of the segment, as long as each of them is closed in it.

  What stands inside the spans is escaped too.  The names that are looked up are the escaped
  ones, and the values are put in as they are.  Both come to the same where nothing has to be
  escaped, and then the text is escaped before its spans are filled as well as after it.

  Main facts:
    * `prefix_of_prefix_escape_append` — a mark that begins an escaped text begins the text.
    * `exists_infix_of_infix_charsOf` — a list of segments holds the marks of its segments.
    * `body_escaped`, `render_ofChars_escape_append` — an escaped text has the spans of the text.
    * `render_ofChars_charsOf` — the text of a list of segments is rendered segment by segment.
    * `render_escaped` — escaping before the spans are filled, and after it.
-/
import Mathlib.Data.List.Forall2
import DesignTokens.Proofs.Pointer.Codec
import DesignTokens.Proofs.Template.Reading

namespace DesignTokens

/-! ## §1. What escaping leaves alone -/

namespace Pointer

/-- The text holds nothing that a pointer escapes. -/
def Unreserved (s : List Char) : Prop := '~' ∉ s ∧ '/' ∉ s

instance (s : List Char) : Decidable (Unreserved s) := inferInstanceAs (Decidable (_ ∧ _))

/-- A character is written as itself, or as a tilde and a digit. -/
theorem escapeChar_cases (c : Char) :
    escapeChar c = [c] ∨ ∃ d, (d = '0' ∨ d = '1') ∧ escapeChar c = ['~', d] := by
  unfold escapeChar
  split
  · exact Or.inr ⟨'0', Or.inl rfl, rfl⟩
  · split
    · exact Or.inr ⟨'1', Or.inr rfl, rfl⟩
    · exact Or.inl rfl

theorem escape_append (s t : List Char) : escape (s ++ t) = escape s ++ escape t :=
  List.flatMap_append

theorem escape_eq_self {s : List Char} (h : Unreserved s) : escape s = s := by
  induction s with
  | nil => rfl
  | cons c s ih =>
    obtain ⟨htilde, hslash⟩ := h
    rw [List.mem_cons, not_or] at htilde hslash
    have hc : escapeChar c = [c] := by
      rw [escapeChar, if_neg (Ne.symm htilde.1), if_neg (Ne.symm hslash.1)]
    rw [escape_cons, hc, ih ⟨htilde.2, hslash.2⟩]
    rfl

section Marks

variable {mark s tail : List Char}

/-- **A mark that begins an escaped text begins the text**: what is escaped begins with a
    tilde. -/
theorem prefix_of_prefix_escape_append (htilde : '~' ∉ mark) (h : mark <+: escape s ++ tail) :
    mark <+: s ++ tail := by
  induction s generalizing mark with
  | nil => exact h
  | cons c s ih =>
    cases mark with
    | nil => exact List.nil_prefix
    | cons m mark =>
      rw [List.mem_cons, not_or] at htilde
      rw [escape_cons] at h
      rcases escapeChar_cases c with hc | ⟨d, -, hc⟩
      · rw [hc] at h
        obtain ⟨rfl, hrest⟩ := List.cons_prefix_cons.1 h
        exact List.cons_prefix_cons.2 ⟨rfl, ih htilde.2 hrest⟩
      · rw [hc] at h
        exact absurd (List.cons_prefix_cons.1 h).1.symm htilde.1

/-- No mark reaches over the slash in front of the next segment. -/
theorem prefix_of_prefix_append_charsOf {names : List String} (hslash : '/' ∉ mark)
    (h : mark <+: s ++ charsOf names) : mark <+: s := by
  cases names with
  | nil =>
    rw [charsOf, List.append_nil] at h
    exact h
  | cons name rest => exact Template.prefix_of_prefix_append_cons hslash h

/-- A mark that holds nothing that a pointer puts in is in a segment, or behind it. -/
theorem infix_of_infix_escape_append {names : List String} (hne : mark ≠ [])
    (hmark : ∀ c ∈ ['~', '0', '1', '/'], c ∉ mark) (h : mark <:+: escape s ++ charsOf names) :
    mark <:+: s ∨ mark <:+: charsOf names := by
  induction s with
  | nil => exact Or.inr h
  | cons c s ih =>
    have hbehind : mark <:+: escape s ++ charsOf names →
        mark <:+: c :: s ∨ mark <:+: charsOf names :=
      fun hrest => (ih hrest).imp_left fun hs => hs.trans (List.suffix_cons c s).isInfix
    by_cases hprefix : mark <+: escape (c :: s) ++ charsOf names
    · have hs : mark <+: (c :: s) ++ charsOf names :=
        prefix_of_prefix_escape_append (hmark '~' (by decide)) hprefix
      exact Or.inl (prefix_of_prefix_append_charsOf (hmark '/' (by decide)) hs).isInfix
    · rw [escape_cons] at h hprefix
      rcases escapeChar_cases c with hc | ⟨d, hd, hc⟩
      · rw [hc] at h hprefix
        exact hbehind ((List.infix_cons_iff.1 h).resolve_left hprefix)
      · have hpair : ∀ e ∈ ['~', d], e ∉ mark := by
          intro e he
          rcases List.mem_pair.1 he with rfl | rfl
          · exact hmark '~' (by decide)
          · rcases hd with rfl | rfl
            · exact hmark '0' (by decide)
            · exact hmark '1' (by decide)
        rw [hc, List.append_assoc] at h
        exact hbehind (Template.infix_of_infix_append hne hpair h)

/-- **The text of a list of segments holds no mark but those of its segments.** -/
theorem exists_infix_of_infix_charsOf {names : List String} (hne : mark ≠ [])
    (hmark : ∀ c ∈ ['~', '0', '1', '/'], c ∉ mark) (h : mark <:+: charsOf names) :
    ∃ name ∈ names, mark <:+: name.toList := by
  induction names with
  | nil => exact absurd (List.infix_nil.1 h) hne
  | cons name rest ih =>
    have hslash : ∀ c ∈ ['/'], c ∉ mark :=
      List.forall_mem_singleton.2 (hmark '/' (by decide))
    have hbehind : mark <:+: escape name.toList ++ charsOf rest :=
      Template.infix_of_infix_append hne hslash h
    rcases infix_of_infix_escape_append hne hmark hbehind with hname | hrest
    · exact ⟨name, List.mem_cons_self, hname⟩
    · obtain ⟨other, hother, hinfix⟩ := ih hrest
      exact ⟨other, List.mem_cons_of_mem _ hother, hinfix⟩

end Marks

end Pointer

namespace Template

open Pointer (escape escapeChar escape_cons escape_append escapeChar_cases charsOf Unreserved)

/-! ## §2. Escaped templates -/

/-- The template with its text escaped, outside of its spans and inside. -/
def escaped : Template → Template
  | .done => .done
  | .text chars rest => .text (escape chars) rest.escaped
  | .span body rest => .span body.escaped rest.escaped

theorem foldr_pushChar_text (cs chars : List Char) (rest : Template) :
    cs.foldr pushChar (.text chars rest) = .text (cs ++ chars) rest := by
  induction cs with
  | nil => rfl
  | cons c cs ih =>
    rw [List.foldr_cons, ih]
    rfl

/-- An escaped character may be two. -/
theorem escaped_pushChar (c : Char) (t : Template) :
    (pushChar c t).escaped = (escapeChar c).foldr pushChar t.escaped := by
  cases t with
  | text chars rest =>
    show Template.text (escape (c :: chars)) rest.escaped = _
    rw [escape_cons, escaped, foldr_pushChar_text]
  | done | span =>
    show Template.text (escape [c]) _ = _
    rw [escape_cons]
    rcases escapeChar_cases c with hc | ⟨d, -, hc⟩ <;> rw [hc] <;> rfl

theorem render_foldr_pushChar (vars : Variables) (cs : List Char) (t : Template) :
    (cs.foldr pushChar t).render vars = (t.render vars).map (cs ++ ·) := by
  induction cs with
  | nil =>
    show t.render vars = _
    cases t.render vars <;> rfl
  | cons c cs ih =>
    rw [List.foldr_cons, render_pushChar, ih]
    cases t.render vars <;> rfl

/-- What is escaped is no mark. -/
theorem not_startsMark_of_escaped {d : Char} (hd : d = '0' ∨ d = '1') (next : List Char) :
    ¬ StartsMark ('~' :: d :: next) ∧ ¬ StartsMark (d :: next) := by
  refine ⟨not_startsMark_of_ne (by decide) (by decide) _, ?_⟩
  rcases hd with rfl | rfl <;> exact not_startsMark_of_ne (by decide) (by decide) next

/-! ## §3. Bodies of spans -/

variable {s inside behind rest : List Char} {c : Char} {t : Template}

theorem body_escapeChar (hmark : escapeChar c = [c] → ¬ StartsMark (c :: s)) (h : Body s t rest) :
    Body (escapeChar c ++ s) ((escapeChar c).foldr pushChar t) rest := by
  rcases escapeChar_cases c with hc | ⟨d, hd, hc⟩
  · rw [hc]
    exact Body.char (hmark hc) h
  · rw [hc]
    obtain ⟨htilde, hdigit⟩ := not_startsMark_of_escaped hd s
    exact Body.char htilde (Body.char hdigit h)

/-- What stands behind the closing mark of a body does not matter to the marks inside it. -/
theorem startsMark_of_startsMark_escape
    (h : StartsMark (c :: (escape s ++ (closeMark ++ behind)))) :
    StartsMark (c :: (s ++ (closeMark ++ rest))) := by
  rcases h with hopen | hclose
  · left
    obtain ⟨hc, hbraces⟩ := openMark_prefix_iff.1 hopen
    have hs : ['{', '{'] <+: s ++ (closeMark ++ behind) :=
      Pointer.prefix_of_prefix_escape_append (by decide) hbraces
    -- the opening mark is over before the closing mark begins
    have hbefore : ['{', '{'] <+: s := prefix_of_prefix_append_cons (by decide) hs
    exact openMark_prefix_iff.2 ⟨hc, hbefore.trans (List.prefix_append _ _)⟩
  · right
    obtain ⟨hc, hbrace⟩ := closeMark_prefix_iff.1 hclose
    have hs : ['}'] <+: s ++ (closeMark ++ behind) :=
      Pointer.prefix_of_prefix_escape_append (by decide) hbrace
    refine closeMark_prefix_iff.2 ⟨hc, ?_⟩
    cases s with
    | nil => exact ⟨'}' :: rest, rfl⟩
    | cons d s =>
      obtain ⟨rfl, -⟩ := List.cons_prefix_cons.1 hs
      exact ⟨s ++ (closeMark ++ rest), rfl⟩

/-- **The body of a span, escaped, is the body of a span**, whatever follows its closing mark. -/
theorem body_escaped (h : Body s t rest) (behind : List Char) :
    Body (escape t.literal ++ (closeMark ++ behind)) t.escaped behind := by
  induction h generalizing behind with
  | close rest => exact Body.close behind
  | @span inside _ rest inner t hinner hrest ihinner ihrest =>
    have hchars : escape (Template.span inner t).literal ++ (closeMark ++ behind)
        = openMark ++ (escape inner.literal
          ++ (closeMark ++ (escape t.literal ++ (closeMark ++ behind)))) := by
      rw [literal, escape_append, escape_append, escape_append]
      simp only [List.append_assoc]
      rfl
    rw [hchars]
    exact Body.span (ihinner _) (ihrest behind)
  | @char c next rest t hmark hnext ih =>
    rw [literal_pushChar, escape_cons, escaped_pushChar, List.append_assoc]
    refine body_escapeChar (fun _ hescaped => hmark ?_) (ih behind)
    rw [literal_of_body hnext, List.append_assoc]
    exact startsMark_of_startsMark_escape hescaped

/-! ## §4. Texts whose spans are closed -/

/-- The text is taken apart into the template, and no span of it is left open. -/
inductive Closed : List Char → Template → Prop where
  | nil : Closed [] .done
  | span {inside behind : List Char} {inner t : Template} :
    Body inside inner behind → Closed behind t → Closed (openMark ++ inside) (.span inner t)
  | char {c : Char} {next : List Char} {t : Template} :
    ¬ openMark <+: c :: next → Closed next t → Closed (c :: next) (pushChar c t)

/-- Whether no text of the template, outside of its spans, opens a span. -/
def closed : Template → Bool
  | .done => true
  | .text chars rest => !occursIn chars && rest.closed
  | .span _ rest => rest.closed

theorem closed_of_closed_pushChar (h : (pushChar c t).closed = true) : t.closed = true := by
  cases t with
  | done => rfl
  | span body rest => exact (Bool.and_eq_true_iff.1 h).2
  | text chars rest =>
    obtain ⟨hchars, hrest⟩ := Bool.and_eq_true_iff.1 h
    rw [Bool.not_eq_true', occursIn, Bool.or_eq_false_iff] at hchars
    exact Bool.and_eq_true_iff.2 ⟨by rw [hchars.2]; rfl, hrest⟩

theorem closed_ofChars (h : (ofChars s).closed = true) : Closed s (ofChars s) := by
  fun_induction ofChars s with
  | case1 => exact Closed.nil
  | case2 inside hunclosed =>
    -- the text of an open span begins with its mark
    cases h
  | case3 inside inner behind hlt hbody ih => exact Closed.span (body_of_body? hbody) (ih h)
  | case4 c next hopen ih =>
    refine Closed.char ?_ (ih (closed_of_closed_pushChar h))
    intro hmark
    obtain ⟨rfl, inside, rfl⟩ := openMark_prefix_iff.1 hmark
    exact hopen inside rfl rfl

theorem ofChars_escapeChar_append (hmark : escapeChar c = [c] → ¬ openMark <+: c :: s) :
    ofChars (escapeChar c ++ s) = (escapeChar c).foldr pushChar (ofChars s) := by
  rcases escapeChar_cases c with hc | ⟨d, hd, hc⟩
  · rw [hc]
    exact ofChars_cons (hmark hc)
  · rw [hc]
    obtain ⟨htilde, hdigit⟩ := not_startsMark_of_escaped hd s
    show ofChars ('~' :: d :: s) = pushChar '~' (pushChar d (ofChars s))
    rw [ofChars_cons (not_or.1 htilde).1, ofChars_cons (not_or.1 hdigit).1]

variable {vars : Variables} {names : List String} {u v : List Char}

/-- **An escaped text has the spans of the text**, in front of other segments. -/
theorem render_ofChars_escape_append (hs : Closed s t) (hu : t.escaped.render vars = .ok u)
    (hv : (ofChars (charsOf names)).render vars = .ok v) :
    (ofChars (escape s ++ charsOf names)).render vars = .ok (u ++ v) := by
  induction hs generalizing u with
  | nil =>
    cases hu
    exact hv
  | @span inside behind inner t hinner hbehind ih =>
    obtain ⟨written, filled, following, hwritten, hfilled, hfollowing, rfl⟩ :=
      spanText_eq_ok_iff.1 hu
    have hchars : escape (openMark ++ inside) ++ charsOf names = openMark ++
        (escape inner.literal ++ (closeMark ++ (escape behind ++ charsOf names))) := by
      rw [literal_of_body hinner, escape_append, escape_append, escape_append]
      simp only [List.append_assoc]
      rfl
    rw [hchars, ofChars_of_body (body_escaped hinner _), render_span, ih hfollowing]
    exact spanText_eq_ok_iff.2
      ⟨written, filled, following ++ v, hwritten, hfilled, rfl, (List.append_assoc _ _ _).symm⟩
  | @char c next t hmark hnext ih =>
    rw [escaped_pushChar, render_foldr_pushChar, map_eq_ok_iff] at hu
    obtain ⟨following, hfollowing, rfl⟩ := hu
    have hstep : escapeChar c = [c] → ¬ openMark <+: c :: (escape next ++ charsOf names) := by
      intro hc hescaped
      have hprefix : openMark <+: escape (c :: next) ++ charsOf names := by
        rw [escape_cons, hc]
        exact hescaped
      exact hmark (Pointer.prefix_of_prefix_append_charsOf (by decide)
        (Pointer.prefix_of_prefix_escape_append (by decide) hprefix))
    rw [escape_cons, List.append_assoc, ofChars_escapeChar_append hstep, render_foldr_pushChar,
      ih hfollowing]
    exact congrArg Except.ok (List.append_assoc _ _ _).symm

/-- **The text of a list of segments is rendered segment by segment**, each of them escaped. -/
theorem render_ofChars_charsOf {texts : List (List Char)}
    (hclosed : ∀ name ∈ names, (ofChars name.toList).closed = true)
    (h : List.Forall₂ (fun name text => (ofChars name.toList).escaped.render vars = .ok text)
      names texts) :
    (ofChars (charsOf names)).render vars = .ok (texts.flatMap fun text => '/' :: text) := by
  induction h with
  | nil => rw [charsOf, ofChars_nil]; rfl
  | @cons name text rest texts hname hrest ih =>
    obtain ⟨hfirst, hothers⟩ := List.forall_mem_cons.1 hclosed
    have hslash : ¬ openMark <+: '/' :: (escape name.toList ++ charsOf rest) :=
      fun hmark => absurd (openMark_prefix_iff.1 hmark).1 (by decide)
    rw [charsOf, ofChars_cons hslash, render_pushChar,
      render_ofChars_escape_append (closed_ofChars hfirst) hname (ih hothers), List.flatMap_cons]
    rfl

/-! ## §5. Before and after -/

/-- No name in a span of the template holds what a pointer escapes, and nothing that fills a
    span does. -/
def FillsUnreserved (vars : Variables) : Template → Prop
  | .done => True
  | .text _ rest => rest.FillsUnreserved vars
  | .span body rest =>
    body.FillsUnreserved vars ∧ rest.FillsUnreserved vars ∧
      Makes (body.render vars) fun written => Unreserved written ∧
        Makes (vars.fill (String.ofList (Text.trim written))) Unreserved

instance decidableFillsUnreserved (vars : Variables) :
    (t : Template) → Decidable (t.FillsUnreserved vars)
  | .done => isTrue True.intro
  | .text _ rest => decidableFillsUnreserved vars rest
  | .span body rest =>
    have := decidableFillsUnreserved vars body
    have := decidableFillsUnreserved vars rest
    inferInstanceAs (Decidable (body.FillsUnreserved vars ∧ rest.FillsUnreserved vars ∧
      Makes (body.render vars) fun written => Unreserved written ∧
        Makes (vars.fill (String.ofList (Text.trim written))) Unreserved))

/-- **Escaping before the spans are filled, and after it**, comes to the same where nothing in
    the spans has to be escaped. -/
theorem render_escaped (h : t.FillsUnreserved vars) (hu : t.render vars = .ok u) :
    t.escaped.render vars = .ok (escape u) := by
  induction t generalizing u with
  | done =>
    cases hu
    rfl
  | text chars rest ih =>
    rw [render_text, map_eq_ok_iff] at hu
    obtain ⟨following, hfollowing, rfl⟩ := hu
    rw [escaped, render_text, ih h hfollowing, escape_append]
    rfl
  | span body rest ihbody ihrest =>
    obtain ⟨hbody, hrest, hmakes⟩ := h
    obtain ⟨written, filled, following, hwritten, hfilled, hfollowing, rfl⟩ :=
      spanText_eq_ok_iff.1 hu
    obtain ⟨hname, hfills⟩ := hmakes written hwritten
    have hescaped : body.escaped.render vars = .ok written := by
      rw [ihbody hbody hwritten, Pointer.escape_eq_self hname]
    rw [escaped, render_span, hescaped, ihrest hrest hfollowing, escape_append,
      Pointer.escape_eq_self (hfills filled hfilled)]
    exact spanText_eq_ok_iff.2 ⟨written, filled, escape following, rfl, hfilled, rfl, rfl⟩

end Template

end DesignTokens
