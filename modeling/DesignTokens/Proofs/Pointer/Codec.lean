/-
  DesignTokens.Proofs.Pointer.Codec — paths and their texts.

  A segment is unescaped by two replacements, the slashes first.  That comes to one scan from the
  left: a replacement puts in a slash for an escaped one, so it makes no new tilde, and a tilde
  that stands in front of something else keeps standing there.

  A text that names a path need not be the text of that path.  It is when it is empty, or when it
  begins with a slash and escapes its tildes; every other text is lenient about the one or the
  other.

  Main facts:
    * `unescape_eq_scan` — both replacements in one scan.
    * `escape_scan_eq_self_iff` — which segments are written back as they were read.
    * `text_parse_eq_self_iff` — which texts are written back as they were read.
    * `parse_patchText` — the text of a written path names the path as written.
    * `pointer_codec` — all of it.
-/
import DesignTokens.Pointer

namespace DesignTokens.Pointer

/-! ## §1. One scan -/

/-- A segment with its escapes undone from the left: `~0` is a tilde, `~1` is a slash, and any
    other tilde stays. -/
def scan : List Char → List Char
  | [] => []
  | '~' :: '0' :: s => '~' :: scan s
  | '~' :: '1' :: s => '/' :: scan s
  | c :: s => c :: scan s

/-- What is no pair stays, and the search goes on behind it. -/
theorem replacePair_cons_of_head? {first second replacement c : Char} {s : List Char}
    (h : c = first → s.head? ≠ some second) :
    replacePair first second replacement (c :: s)
      = c :: replacePair first second replacement s := by
  cases s with
  | nil => rfl
  | cons d s =>
    rw [replacePair, if_neg]
    rintro ⟨hc, rfl⟩
    exact h hc rfl

/-- A replacement puts nothing in front of a text but what it puts in. -/
theorem head?_replacePair {first second replacement d : Char} {s : List Char}
    (h : (replacePair first second replacement s).head? = some d) (hd : d ≠ replacement) :
    s.head? = some d := by
  cases s with
  | nil => exact h
  | cons c s =>
    cases s with
    | nil => exact h
    | cons c' s =>
      rw [replacePair] at h
      split at h
      · exact absurd (Option.some.inj h).symm hd
      · exact h

theorem head?_ne_of_forall_ne {p : Prop} {d : Char} {s : List Char}
    (h : ∀ rest, p → s = d :: rest → False) (hp : p) : s.head? ≠ some d := by
  intro hs
  obtain ⟨rest, hrest⟩ := List.head?_eq_some_iff.1 hs
  exact h rest hp hrest

/-- **Both replacements in one scan.** -/
theorem unescape_eq_scan (s : List Char) : unescape s = scan s := by
  unfold unescape
  fun_induction scan s with
  | case1 => rfl
  | case2 s ih =>
    -- the slashes are looked for first and leave the tilde alone
    have hslashes : replacePair '~' '1' '/' ('~' :: '0' :: s)
        = '~' :: '0' :: replacePair '~' '1' '/' s := by
      rw [replacePair_cons_of_head? fun _ => by simp, replacePair_cons_of_ne (by decide)]
    rw [hslashes, replacePair, if_pos ⟨rfl, rfl⟩, ih]
  | case3 s ih =>
    rw [replacePair, if_pos ⟨rfl, rfl⟩, replacePair_cons_of_ne (by decide), ih]
  | case4 c s hzero hone ih =>
    have hslash : c = '~' → s.head? ≠ some '1' := head?_ne_of_forall_ne hone
    -- a slash that was put in is no zero, so no tilde has come in front of one
    have htilde : c = '~' → (replacePair '~' '1' '/' s).head? ≠ some '0' :=
      fun hc hs => head?_ne_of_forall_ne hzero hc (head?_replacePair hs (by decide))
    rw [replacePair_cons_of_head? hslash, replacePair_cons_of_head? htilde, ih]

/-! ## §2. Escapes that are written back -/

/-- Every tilde of a text begins one of the two escapes. -/
def WellEscaped (s : List Char) : Prop :=
  ∀ before after, s = before ++ '~' :: after → after.head? = some '0' ∨ after.head? = some '1'

theorem wellEscaped_nil : WellEscaped [] := by
  intro before after h
  exact absurd h.symm (by simp)

theorem wellEscaped_cons_iff {c : Char} {s : List Char} : WellEscaped (c :: s) ↔
    (c = '~' → s.head? = some '0' ∨ s.head? = some '1') ∧ WellEscaped s := by
  constructor
  · intro h
    refine ⟨?_, fun before after hs => h (c :: before) after (by rw [hs]; rfl)⟩
    rintro rfl
    exact h [] s rfl
  · rintro ⟨hfirst, hrest⟩ before after hs
    cases before with
    | nil =>
      obtain ⟨hc, rfl⟩ := List.cons.inj hs
      exact hfirst hc
    | cons d before => exact hrest before after (List.cons.inj hs).2

/-- An escape does not matter to what follows it. -/
theorem wellEscaped_escape_iff {d : Char} (hd : d = '0' ∨ d = '1') {s : List Char} :
    WellEscaped ('~' :: d :: s) ↔ WellEscaped s := by
  have hne : d ≠ '~' := by
    rintro rfl
    revert hd
    decide
  rw [wellEscaped_cons_iff, wellEscaped_cons_iff, List.head?_cons, Option.some.injEq,
    Option.some.injEq]
  exact ⟨fun h => h.2.2, fun h => ⟨fun _ => hd, fun hc => absurd hc hne, h⟩⟩

theorem escape_cons (c : Char) (s : List Char) : escape (c :: s) = escapeChar c ++ escape s :=
  List.flatMap_cons

/-- **A segment is written back as it was read** when its tildes are escapes. -/
theorem escape_scan_eq_self_iff {s : List Char} (h : '/' ∉ s) :
    escape (scan s) = s ↔ WellEscaped s := by
  fun_induction scan s with
  | case1 => exact iff_of_true rfl wellEscaped_nil
  | case2 s ih =>
    have hs : '/' ∉ s := fun hmem => h (by simp [hmem])
    rw [wellEscaped_escape_iff (Or.inl rfl), ← ih hs, escape_cons]
    simp [escapeChar]
  | case3 s ih =>
    have hs : '/' ∉ s := fun hmem => h (by simp [hmem])
    rw [wellEscaped_escape_iff (Or.inr rfl), ← ih hs, escape_cons]
    simp [escapeChar]
  | case4 c s hzero hone ih =>
    have hslash : c ≠ '/' := fun hc => h (by simp [hc])
    have hs : '/' ∉ s := fun hmem => h (by simp [hmem])
    rw [escape_cons, wellEscaped_cons_iff, ← ih hs]
    by_cases hc : c = '~'
    · -- the tilde is read as itself, but it is written as an escape
      refine iff_of_false (fun heq => ?_) (fun hand => ?_)
      · subst hc
        exact hzero _ rfl (List.cons.inj heq).2.symm
      · rcases hand.1 hc with hhead | hhead
        · exact head?_ne_of_forall_ne hzero hc hhead
        · exact head?_ne_of_forall_ne hone hc hhead
    · simp [escapeChar, hc, hslash]

/-! ## §3. Texts that are written back -/

/-- The first piece of a text begins as the text does. -/
theorem head?_of_pieces {separator d : Char} (hd : d ≠ separator) {s piece : List Char}
    {rest : List (List Char)} (h : Text.pieces separator s = piece :: rest) :
    piece.head? = some d ↔ s.head? = some d := by
  cases s with
  | nil =>
    cases h
    exact Iff.rfl
  | cons c s =>
    rw [Text.pieces] at h
    split at h
    · next hc =>
      cases h
      refine iff_of_false (by simp) fun hhead => hd ?_
      rw [← hc]
      exact (Option.some.inj hhead).symm
    · split at h
      · cases h
        exact Iff.rfl
      · cases h
        exact Iff.rfl

/-- A text is escaped where each of its pieces is: no escape holds a slash. -/
theorem wellEscaped_iff_pieces {s : List Char} :
    WellEscaped s ↔ ∀ piece ∈ Text.pieces '/' s, WellEscaped piece := by
  induction s with
  | nil => exact List.forall_mem_singleton.symm
  | cons c s ih =>
    rw [Text.pieces, wellEscaped_cons_iff, ih]
    split
    · next hc =>
      have hvacuous : c = '~' → s.head? = some '0' ∨ s.head? = some '1' := by
        rintro rfl
        cases hc
      rw [List.forall_mem_cons]
      exact ⟨fun h => ⟨wellEscaped_nil, h.2⟩, fun h => ⟨hvacuous, h.2⟩⟩
    · split
      · next hpieces => exact absurd hpieces (Text.pieces_ne_nil '/' s)
      · next piece rest hpieces =>
        rw [hpieces, List.forall_mem_cons, List.forall_mem_cons, wellEscaped_cons_iff, and_assoc,
          head?_of_pieces (by decide) hpieces, head?_of_pieces (by decide) hpieces]

/-- Behind the first slash a text is written back piece by piece. -/
theorem charsOf_segmentsOf_cons (body : List Char) : charsOf (segmentsOf ('/' :: body))
    = '/' :: Text.joined '/' ((Text.pieces '/' body).map fun piece => escape (scan piece)) := by
  obtain ⟨piece, rest, hpieces⟩ := List.exists_cons_of_ne_nil (Text.pieces_ne_nil '/' body)
  have hsegments : segmentsOf ('/' :: body)
      = String.ofList (scan piece) :: rest.map fun piece => String.ofList (scan piece) := by
    rw [segmentsOf, hpieces, List.map_cons]
    simp only [unescape_eq_scan]
  rw [hsegments, charsOf_cons_eq, hpieces]
  simp [Function.comp_def]

/-- Pieces that are changed, without slashes, make up the text again when none of them is
    changed. -/
theorem joined_map_pieces_eq_self_iff {f : List Char → List Char} (hf : ∀ piece, '/' ∉ f piece)
    {s : List Char} : Text.joined '/' ((Text.pieces '/' s).map f) = s ↔
      ∀ piece ∈ Text.pieces '/' s, f piece = piece := by
  constructor
  · intro h
    have hne : (Text.pieces '/' s).map f ≠ [] :=
      fun hnil => Text.pieces_ne_nil '/' s (List.map_eq_nil_iff.1 hnil)
    have hslashes : ∀ text ∈ (Text.pieces '/' s).map f, '/' ∉ text := by
      intro text htext
      obtain ⟨piece, -, rfl⟩ := List.mem_map.1 htext
      exact hf piece
    -- the changed pieces are the pieces of what they make up
    have hpieces : (Text.pieces '/' s).map f = (Text.pieces '/' s).map id := by
      rw [← Text.pieces_joined hne hslashes, h, List.map_id]
    exact List.map_inj_left.1 hpieces
  · intro h
    rw [List.map_congr_left h, List.map_id', Text.joined_pieces]

theorem eq_slash_of_charsOf {segments : List String} {c : Char} {s : List Char}
    (h : charsOf segments = c :: s) : c = '/' := by
  cases segments with
  | nil => cases h
  | cons segment rest => exact (List.cons.inj h).1.symm

/-- **A text is written back as it was read** when it is empty, or begins with a slash and its
    tildes are escapes. -/
theorem charsOf_segmentsOf_eq_self_iff {s : List Char} :
    charsOf (segmentsOf s) = s ↔ s = [] ∨ (s.head? = some '/' ∧ WellEscaped s) := by
  cases s with
  | nil => exact iff_of_true rfl (Or.inl rfl)
  | cons c body =>
    by_cases hc : c = '/'
    · subst hc
      have hescaped : WellEscaped ('/' :: body) ↔ WellEscaped body :=
        wellEscaped_cons_iff.trans (and_iff_right fun hc => absurd hc (by decide))
      rw [charsOf_segmentsOf_cons, List.cons_inj_right,
        joined_map_pieces_eq_self_iff fun piece => slash_not_mem_escape (scan piece), hescaped,
        wellEscaped_iff_pieces]
      simp only [reduceCtorEq, List.head?_cons, true_and, false_or]
      exact forall₂_congr fun piece hpiece =>
        escape_scan_eq_self_iff (Text.not_mem_of_mem_pieces hpiece)
    · refine iff_of_false (fun h => hc (eq_slash_of_charsOf h)) ?_
      rintro (h | ⟨h, -⟩)
      · cases h
      · exact hc (Option.some.inj h)

theorem text_parse_eq_self_iff {text : String} :
    (parse text).text = text ↔
      text = "" ∨ (text.toList.head? = some '/' ∧ WellEscaped text.toList) := by
  rw [← String.toList_eq_nil_iff, ← charsOf_segmentsOf_eq_self_iff]
  constructor
  · intro h
    exact String.toList_ofList.symm.trans (congrArg String.toList h)
  · intro h
    exact (congrArg String.ofList h).trans String.ofList_toList

/-! ## §4. Written paths -/

/-- **The text of a written path** names the path as it is written, whether it is a text that may
    lack its first slash or a list of segments. -/
theorem parse_patchText (path : WrittenPath) : parse path.patchText = path.asWritten := by
  cases path with
  | segments names => exact parse_text ⟨names⟩
  | pointer text =>
    unfold WrittenPath.patchText WrittenPath.asWritten
    dsimp only
    split
    · rfl
    · rfl
    · next hempty hslash =>
      cases htext : text.toList with
      | nil => exact absurd htext hempty
      | cons c s =>
        have hc : c ≠ '/' := by
          rintro rfl
          exact hslash s htext
        unfold parse
        rw [String.toList_append, htext]
        simp [segmentsOf, hc]

/-! ## §5. The codec -/

/-- **Paths and their texts.**  The text of a list of segments names exactly these segments.  A
    segment is unescaped in one scan from the left.  A text is the text of the path that it names
    when it is empty, or begins with a slash and has no tilde but in front of a zero or a one.  The
    text of a written path, in either spelling, names the path as it is written. -/
theorem pointer_codec :
    (∀ segments : List String, parse (Pointer.mk segments).text = ⟨segments⟩) ∧
    (∀ segment : String, unescapeSegment segment = String.ofList (scan segment.toList)) ∧
    (∀ text : String, (parse text).text = text ↔
      text = "" ∨ (text.toList.head? = some '/' ∧ WellEscaped text.toList)) ∧
    ∀ path : WrittenPath, parse path.patchText = path.asWritten :=
  ⟨fun segments => parse_text ⟨segments⟩,
    fun segment => congrArg String.ofList (unescape_eq_scan segment.toList),
    fun _ => text_parse_eq_self_iff, parse_patchText⟩

end DesignTokens.Pointer
