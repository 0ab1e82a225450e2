/-
  DesignTokens.Text.Cut — cutting a text at the occurrences of a mark.

  Occurrences are taken from the left and do not overlap: `aaa` is cut by `aa` into an empty
  piece and `a`.

  Main facts:
    * `eq_of_cut?` — the piece before the mark, the mark and the rest make up the text.
    * `length_of_cut?` — the rest is shorter than the text, which is why cutting ends.
    * `intercalate_cutAll` — putting the mark back between the pieces gives the text back.
-/

namespace DesignTokens.Text

/-! ## §1. One cut -/

/-- The text before the first occurrence of `mark` and the text after it. -/
def cut? (mark : List Char) : List Char → Option (List Char × List Char)
  | [] => none
  | c :: s =>
    match mark.isPrefixOf? (c :: s) with
    | some rest => some ([], rest)
    | none => (cut? mark s).map fun (before, after) => (c :: before, after)

/-- Whether `mark` occurs in the text. -/
def occursIn (mark s : List Char) : Bool := (cut? mark s).isSome

theorem eq_append_of_isPrefixOf? {mark s rest : List Char}
    (h : mark.isPrefixOf? s = some rest) : s = mark ++ rest := by
  induction mark generalizing s with
  | nil =>
    have h : some s = some rest := h
    exact Option.some.inj h
  | cons m mark ih =>
    cases s with
    | nil =>
      have h : none = some rest := h
      cases h
    | cons c s =>
      have h : (if m == c then mark.isPrefixOf? s else none) = some rest := h
      split at h
      · next hm => rw [ih h, eq_of_beq hm]; rfl
      · simp at h

/-- The pieces of a cut, with the mark between them, make up the text. -/
theorem eq_of_cut? {mark s before after : List Char} (h : cut? mark s = some (before, after)) :
    s = before ++ mark ++ after := by
  induction s generalizing before with
  | nil => simp [cut?] at h
  | cons c s ih =>
    rw [cut?] at h
    split at h
    · next rest hrest =>
      obtain ⟨rfl, rfl⟩ : [] = before ∧ rest = after := by simpa using h
      simpa using eq_append_of_isPrefixOf? hrest
    · simp only [Option.map_eq_some_iff, Prod.mk.injEq, Prod.exists] at h
      obtain ⟨b, a, hcut, rfl, rfl⟩ := h
      rw [ih hcut]
      simp

/-- What follows a mark is shorter than the text. -/
theorem length_of_cut? {mark s before after : List Char} (hmark : mark ≠ [])
    (h : cut? mark s = some (before, after)) : after.length < s.length := by
  have hpos : 0 < mark.length := List.length_pos_iff.2 hmark
  rw [eq_of_cut? h]
  simp only [List.length_append]
  omega

/-! ## §2. All cuts -/

/-- The pieces of a text between the occurrences of `mark`; there is always at least one. -/
def cutAll (mark : List Char) (s : List Char) : List (List Char) :=
  match cut? mark s with
  | none => [s]
  | some (before, after) =>
    if after.length < s.length then before :: cutAll mark after else [s]
termination_by s.length

theorem cutAll_ne_nil (mark s : List Char) : cutAll mark s ≠ [] := by
  rw [cutAll]
  split
  · simp
  · split <;> simp

/-- Putting the mark back between the pieces gives the text back. -/
theorem intercalate_cutAll (mark s : List Char) : mark.intercalate (cutAll mark s) = s := by
  fun_induction cutAll mark s with
  | case1 s _ => simp [List.intercalate]
  | case2 s before after hcut _ ih =>
    have hne := cutAll_ne_nil mark after
    rw [eq_of_cut? hcut]
    cases hpieces : cutAll mark after with
    | nil => exact absurd hpieces hne
    | cons p ps =>
      rw [hpieces] at ih
      simp only [List.intercalate, List.intersperse_cons_cons, List.flatten_cons] at ih ⊢
      rw [ih]
      simp
  | case3 s _ _ _ _ => simp [List.intercalate]

end DesignTokens.Text
