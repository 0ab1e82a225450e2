/-
  DesignTokens.Template.Basic — texts with spans that stand for variables.

  A span stands between `$` with two opening braces and two closing braces.  Spans may nest:
  the text of the inner span becomes part of the name of the outer one.  A closing mark outside
  of every span is text, and a span that is never closed is text together with all that follows
  its opening mark.

  Main facts:
    * `literal_ofChars` — taking a text apart loses nothing.
-/

namespace DesignTokens

/-- A text taken apart at its spans: text, spans and what follows them. -/
inductive Template where
  | done
  | text (chars : List Char) (rest : Template)
  | span (body rest : Template)
deriving Repr, DecidableEq, Inhabited

namespace Template

/-! ## §1. Marks -/

/-- The mark that opens a span. -/
def openMark : List Char := ['$', '{', '{']

/-- The mark that closes a span. -/
def closeMark : List Char := ['}', '}']

/-- The text that a template was taken from. -/
def literal : Template → List Char
  | .done => []
  | .text chars rest => chars ++ rest.literal
  | .span body rest => openMark ++ body.literal ++ closeMark ++ rest.literal

/-! ## §2. Taking a text apart -/

/-- Puts a character in front of a template, into the text it starts with. -/
def pushChar (c : Char) : Template → Template
  | .text chars rest => .text (c :: chars) rest
  | t => .text [c] t

theorem length_lt_close {rest : List Char} : rest.length < ('}' :: '}' :: rest).length := by
  simp only [List.length_cons]
  omega

theorem length_lt_open {inside behind rest : List Char} (h₁ : behind.length < inside.length)
    (h₂ : rest.length < behind.length) : rest.length < ('$' :: '{' :: '{' :: inside).length := by
  simp only [List.length_cons]
  omega

/-- What a span holds, read up to its closing mark, and the text behind the mark.  Nothing, if
    the text ends before the span does. -/
def body? (s : List Char) : Option (Template × { r : List Char // r.length < s.length }) :=
  match s with
  | [] => none
  | '}' :: '}' :: rest => some (.done, ⟨rest, length_lt_close⟩)
  | '$' :: '{' :: '{' :: inside =>
    match body? inside with
    | none => none
    | some (inner, ⟨behind, h₁⟩) =>
      match body? behind with
      | none => none
      | some (t, ⟨rest, h₂⟩) =>
        some (.span inner t, ⟨rest, length_lt_open h₁ h₂⟩)
  | c :: next =>
    match body? next with
    | none => none
    | some (t, ⟨rest, h⟩) => some (pushChar c t, ⟨rest, Nat.lt_succ_of_lt h⟩)
termination_by s.length

/-- Takes a text apart at its spans. -/
def ofChars (s : List Char) : Template :=
  match s with
  | [] => .done
  | '$' :: '{' :: '{' :: inside =>
    match body? inside with
    | none => .text s .done
    | some (inner, ⟨behind, _⟩) => .span inner (ofChars behind)
  | c :: next => pushChar c (ofChars next)
termination_by s.length
decreasing_by all_goals simp only [List.length_cons]; omega

/-- Whether a text opens a span. -/
def occursIn : List Char → Bool
  | [] => false
  | c :: s => openMark.isPrefixOf (c :: s) || occursIn s

/-! ## §3. Laws -/

@[simp] theorem literal_pushChar (c : Char) (t : Template) :
    (pushChar c t).literal = c :: t.literal := by
  cases t <;> simp [pushChar, literal]

/-- The body of a span, its closing mark and the text behind it make up the text. -/
theorem literal_body {s : List Char} {t : Template} {r : { r : List Char // r.length < s.length }}
    (h : body? s = some (t, r)) : s = t.literal ++ closeMark ++ r.val := by
  fun_induction body? s generalizing t with
  | case1 => simp at h
  | case2 rest =>
    obtain ⟨rfl, rfl⟩ : Template.done = t ∧ _ = r := by simpa using h
    simp [literal, closeMark]
  | case3 inside hinner ih => simp at h
  | case4 inside inner behind hlt hinner hrest ih₁ ih₂ => simp at h
  | case5 inside inner behind h₁ hinner t' rest h₂ hrest ih₁ ih₂ =>
    obtain ⟨rfl, rfl⟩ : Template.span inner t' = t ∧ _ = r := by simpa using h
    have e₁ := ih₁ hinner
    have e₂ := ih₂ hrest
    simp only [literal, openMark, List.cons_append, List.nil_append, List.append_assoc]
    simp only at e₁ e₂
    rw [e₁, e₂]
    simp [closeMark]
  | case6 c next hc₁ hc₂ hnext ih => simp at h
  | case7 c next hc₁ hc₂ t' rest hlt hnext ih =>
    obtain ⟨rfl, rfl⟩ : pushChar c t' = t ∧ _ = r := by simpa using h
    rw [literal_pushChar, List.cons_append, List.cons_append, ← ih hnext]

/-- Taking a text apart loses nothing. -/
theorem literal_ofChars (s : List Char) : (ofChars s).literal = s := by
  fun_induction ofChars s with
  | case1 => rfl
  | case2 inside h => simp [literal]
  | case3 inside inner behind hlt h ih =>
    rw [literal, ih, literal_body h]
    simp [openMark]
  | case4 c next hc ih => rw [literal_pushChar, ih]

end Template

end DesignTokens
