/-
  DesignTokens.Text.Pieces — the pieces of a text between single separators.

  A text with `n` separators has `n + 1` pieces, some of which may be empty.

  Main facts:
    * `pieces_ne_nil` — there is always a piece.
    * `not_mem_of_mem_pieces` — no piece holds the separator.
    * `joined_pieces` — putting the separator back between the pieces gives the text back.
    * `pieces_joined` — texts that do not hold the separator are the pieces of their join.
    * `joined_append`, `joined_map` — a join of parts, and of parts that are joins themselves.
    * `splitString_intercalate` — and so are strings.
-/

namespace DesignTokens.Text

/-- The pieces of a text between the occurrences of `separator`. -/
def pieces (separator : Char) : List Char → List (List Char)
  | [] => [[]]
  | c :: s =>
    if c = separator then [] :: pieces separator s
    else
      match pieces separator s with
      | [] => [[c]]
      | piece :: rest => (c :: piece) :: rest

/-- Texts with a separator between any two of them. -/
def joined (separator : Char) : List (List Char) → List Char
  | [] => []
  | [piece] => piece
  | piece :: rest => piece ++ separator :: joined separator rest

/-- `pieces` on strings. -/
def splitString (separator : Char) (s : String) : List String :=
  (pieces separator s.toList).map String.ofList

theorem pieces_ne_nil (separator : Char) (s : List Char) : pieces separator s ≠ [] := by
  cases s with
  | nil => simp [pieces]
  | cons c s =>
    rw [pieces]
    split
    · simp
    · split <;> simp

theorem joined_cons {separator : Char} {rest : List (List Char)} (piece : List Char)
    (h : rest ≠ []) :
    joined separator (piece :: rest) = piece ++ separator :: joined separator rest := by
  cases rest with
  | nil => exact absurd rfl h
  | cons => rfl

/-- Putting the separator back between the pieces gives the text back. -/
theorem joined_pieces (separator : Char) (s : List Char) :
    joined separator (pieces separator s) = s := by
  induction s with
  | nil => rfl
  | cons c s ih =>
    rw [pieces]
    split
    · next h => rw [joined_cons _ (pieces_ne_nil separator s), ih, h]; rfl
    · cases hs : pieces separator s with
      | nil => exact absurd hs (pieces_ne_nil separator s)
      | cons piece rest =>
        rw [hs] at ih
        cases rest with
        | nil => simpa [joined] using ih
        | cons next rest => simpa [joined] using ih

/-- No piece holds the separator. -/
theorem not_mem_of_mem_pieces {separator : Char} {s piece : List Char}
    (h : piece ∈ pieces separator s) : separator ∉ piece := by
  induction s generalizing piece with
  | nil =>
    rw [List.mem_singleton.1 h]
    exact List.not_mem_nil
  | cons c s ih =>
    rw [pieces] at h
    split at h
    · rcases List.mem_cons.1 h with rfl | h
      · exact List.not_mem_nil
      · exact ih h
    · next hc =>
      split at h
      · rw [List.mem_singleton.1 h]
        simpa using Ne.symm hc
      · next first rest hpieces =>
        rw [hpieces] at ih
        rcases List.mem_cons.1 h with rfl | h
        · -- the character goes in front of the first piece
          have hfirst : separator ∉ first := ih List.mem_cons_self
          simpa [Ne.symm hc] using hfirst
        · exact ih (List.mem_cons_of_mem _ h)

/-- A text without separators, in front of a separator, is the first piece. -/
theorem pieces_append_cons {separator : Char} {piece : List Char} (h : separator ∉ piece)
    (s : List Char) : pieces separator (piece ++ separator :: s) = piece :: pieces separator s := by
  induction piece with
  | nil => simp [pieces]
  | cons c piece ih =>
    have hc : c ≠ separator := fun hc => h (by simp [hc])
    have hpiece : separator ∉ piece := fun hmem => h (by simp [hmem])
    simp [pieces, hc, ih hpiece]

/-- A text without separators is its only piece. -/
theorem pieces_of_not_mem {separator : Char} {s : List Char} (h : separator ∉ s) :
    pieces separator s = [s] := by
  induction s with
  | nil => rfl
  | cons c s ih =>
    have hc : c ≠ separator := fun hc => h (by simp [hc])
    have hs : separator ∉ s := fun hmem => h (by simp [hmem])
    simp [pieces, hc, ih hs]

/-- Texts that do not hold the separator are the pieces of their join. -/
theorem pieces_joined {separator : Char} {texts : List (List Char)} (hne : texts ≠ [])
    (h : ∀ t ∈ texts, separator ∉ t) : pieces separator (joined separator texts) = texts := by
  induction texts with
  | nil => exact absurd rfl hne
  | cons t rest ih =>
    cases rest with
    | nil => exact pieces_of_not_mem (h t (by simp))
    | cons next rest =>
      rw [joined_cons t (by simp), pieces_append_cons (h t (by simp)),
        ih (by simp) (fun u hu => h u (by simp [hu]))]

/-- Two joins with the separator between them are one. -/
theorem joined_append {separator : Char} {front back : List (List Char)} (hfront : front ≠ [])
    (hback : back ≠ []) : joined separator (front ++ back)
      = joined separator front ++ separator :: joined separator back := by
  induction front with
  | nil => exact absurd rfl hfront
  | cons piece rest ih =>
    cases rest with
    | nil => exact joined_cons piece hback
    | cons next rest =>
      rw [List.cons_append, joined_cons piece (by simp), joined_cons piece (by simp),
        ih (by simp), List.append_assoc, List.cons_append]

/-- Where every part is a join, the parts joined are the texts of all of them joined. -/
theorem joined_map {α : Type} {separator : Char} {part : α → List Char}
    {texts : α → List (List Char)} (hne : ∀ x, texts x ≠ [])
    (hpart : ∀ x, joined separator (texts x) = part x) (xs : List α) :
    joined separator (xs.map part) = joined separator (xs.flatMap texts) := by
  induction xs with
  | nil => rfl
  | cons x rest ih =>
    rw [List.map_cons, List.flatMap_cons]
    cases rest with
    | nil => simpa [joined] using (hpart x).symm
    | cons next rest =>
      have hrest : (next :: rest).flatMap texts ≠ [] := by
        rw [List.flatMap_cons]
        exact List.append_ne_nil_of_left_ne_nil (hne next) _
      rw [joined_cons _ (by simp), ih, joined_append (hne x) hrest, hpart]

/-- A join with one character between the texts. -/
theorem joined_eq_intercalate (separator : Char) (texts : List (List Char)) :
    joined separator texts = [separator].intercalate texts := by
  induction texts with
  | nil => rfl
  | cons t rest ih =>
    cases rest with
    | nil => simp [joined, List.intercalate]
    | cons next rest =>
      rw [joined_cons t (by simp), ih]
      simp [List.intercalate]

/-- Strings that do not hold the separator are the pieces of their join. -/
theorem splitString_intercalate {separator : Char} {mark : String}
    (hmark : mark.toList = [separator]) {texts : List String} (hne : texts ≠ [])
    (h : ∀ t ∈ texts, separator ∉ t.toList) :
    splitString separator (mark.intercalate texts) = texts := by
  have hchars : ∀ s ∈ texts.map String.toList, separator ∉ s := by
    intro s hs
    obtain ⟨t, ht, hst⟩ := List.mem_map.1 hs
    rw [← hst]
    exact h t ht
  unfold splitString
  rw [String.toList_intercalate, hmark, ← joined_eq_intercalate,
    pieces_joined (by simpa using hne) hchars, List.map_map]
  simp [Function.comp_def]

end DesignTokens.Text
