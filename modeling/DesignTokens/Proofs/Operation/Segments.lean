/-
  DesignTokens.Proofs.Operation.Segments — variables in lists of segments.

  A path that is a list of segments is written as a pointer text, and this text is treated like
  any other: its variables are resolved, and what comes out is taken apart at its slashes.  The
  matrix resolves the segments of such a list one by one.

  The two agree on a list whose segments close the spans that they open, as long as no name and
  no value holds a tilde or a slash.  Text outside of the spans may hold both.

  Main facts:
    * `hasRange_text` — a list of segments holds no range when none of its segments does.
    * `expand_of_escaped` — what a list expands to, from the texts of its escaped segments.
    * `expand_segments` — the one pointer with the segments resolved one by one.
-/
import DesignTokens.Proofs.Operation.Strings
import DesignTokens.Proofs.Range.Product
import DesignTokens.Proofs.Template.Escaped

namespace DesignTokens

/-! ## §1. The text of a list -/

theorem Range.hasRange_eq_false_iff {input : String} :
    hasRange input = false ↔ ¬ openMark <:+: input.toList := by
  rw [hasRange, Text.occursIn, Option.isSome_eq_false_iff, Option.isNone_iff_eq_none,
    Text.cut?_eq_none_iff openMark_ne_nil]

/-- A list of segments holds no range when none of its segments does. -/
theorem Pointer.hasRange_text {names : List String}
    (h : ∀ name ∈ names, Range.hasRange name = false) :
    Range.hasRange (Pointer.mk names).text = false := by
  rw [Range.hasRange_eq_false_iff, Pointer.text, String.toList_ofList]
  intro hinfix
  obtain ⟨name, hname, hmark⟩ :=
    exists_infix_of_infix_charsOf Range.openMark_ne_nil (by simp [Range.openMark]) hinfix
  exact Range.hasRange_eq_false_iff.1 (h name hname) hmark

theorem Pointer.charsOf_eq_flatMap (segments : List String) :
    charsOf segments
      = (segments.map fun segment => escape segment.toList).flatMap fun text => '/' :: text := by
  induction segments with
  | nil => rfl
  | cons segment rest ih =>
    rw [charsOf, ih]
    rfl

/-! ## §2. Lists of segments -/

namespace WrittenPath

open Template (ofChars)

variable {vars : Variables} {names : List String}

/-- **What a list of segments expands to**, from the texts that its escaped segments come to. -/
theorem expand_of_escaped {texts : List (List Char)}
    (hrange : ∀ name ∈ names, Range.hasRange name = false)
    (hclosed : ∀ name ∈ names, (ofChars name.toList).closed = true)
    (h : List.Forall₂ (fun name text => (ofChars name.toList).escaped.render vars = .ok text)
      names texts) :
    (segments names).expand vars
      = .ok [⟨Pointer.segmentsOf (texts.flatMap fun text => '/' :: text)⟩] := by
  have hresolved : vars.resolve (Pointer.mk names).text
      = .ok (String.ofList (texts.flatMap fun text => '/' :: text)) := by
    rw [Variables.resolve, Pointer.text, String.toList_ofList,
      Template.render_ofChars_charsOf hclosed h]
    rfl
  have hranges : Range.expand (segments names).patchText = .ok [(Pointer.mk names).text] :=
    Range.expand_of_not_hasRange (Pointer.hasRange_text hrange)
  rw [expand, hranges]
  show vars.pointers [(Pointer.mk names).text] = _
  rw [Variables.pointers, hresolved]
  show Except.ok [Pointer.parse (String.ofList (texts.flatMap fun text => '/' :: text))] = _
  rw [Pointer.parse, String.toList_ofList]

/-- An escaped segment comes to the text of the segment, escaped. -/
theorem render_escaped_of_resolve {name text : String}
    (hfills : (ofChars name.toList).FillsUnreserved vars) (h : vars.resolve name = .ok text) :
    (ofChars name.toList).escaped.render vars = .ok (Pointer.escape text.toList) := by
  obtain ⟨u, hu, rfl⟩ := map_eq_ok_iff.1 h
  rw [Template.render_escaped hfills hu, String.toList_ofList]

/-- **A list of segments is resolved segment by segment** where each of them closes the spans
    that it opens, and no name or value in the spans holds a tilde or a slash.  It then stands
    for one place, with a segment for each of the list: the one that the matrix makes of it. -/
theorem expand_segments {resolved : List String}
    (hrange : ∀ name ∈ names, Range.hasRange name = false)
    (hclosed : ∀ name ∈ names, (ofChars name.toList).closed = true)
    (hfills : ∀ name ∈ names, (ofChars name.toList).FillsUnreserved vars)
    (h : List.Forall₂ (fun name text => vars.resolve name = .ok text) names resolved) :
    (segments names).expand vars = .ok [⟨resolved⟩] ∧ resolved.length = names.length ∧
      (segments names).mapStrings vars.resolve = .ok (.segments resolved) := by
  have hescaped : List.Forall₂ (fun name text =>
      (ofChars name.toList).escaped.render vars = .ok text) names
        (resolved.map fun text => Pointer.escape text.toList) := by
    refine List.forall₂_map_right_iff.2
      (List.forall₂_iff_zip.2 ⟨h.length_eq, fun {name text} hpair => ?_⟩)
    exact render_escaped_of_resolve (hfills name (List.of_mem_zip hpair).1)
      ((List.forall₂_iff_zip.1 h).2 hpair)
  refine ⟨?_, h.length_eq.symm, ?_⟩
  · rw [expand_of_escaped hrange hclosed hescaped, ← Pointer.charsOf_eq_flatMap,
      Pointer.segmentsOf_charsOf]
  · rw [mapStrings, mapStringList_eq_ok_iff.2 h]
    rfl

/-- A slash and a tilde outside of all spans, and a span in the name of another one. -/
def glyphNames : List String := ["icons/ui", "~$\x7b\x7b scale.$\x7b\x7b size \x7d\x7d \x7d\x7d"]

/-- A table whose names and values need no escapes. -/
def glyphScales : Variables := .ofEntries [("size", .str "lg"), ("scale.lg", .num (.int 24))]

theorem expand_segments_glyphNames :
    (∀ name ∈ glyphNames, Range.hasRange name = false) ∧
      (∀ name ∈ glyphNames, (ofChars name.toList).closed = true) ∧
      (∀ name ∈ glyphNames, (ofChars name.toList).FillsUnreserved glyphScales) ∧
      List.Forall₂ (fun name text => glyphScales.resolve name = .ok text)
        glyphNames ["icons/ui", "~24"] ∧
      (segments glyphNames).expand glyphScales = .ok [⟨["icons/ui", "~24"]⟩] := by
  have hrange : ∀ name ∈ glyphNames, Range.hasRange name = false := by decide +kernel
  have hclosed : ∀ name ∈ glyphNames, (ofChars name.toList).closed = true := by decide +kernel
  have hfills : ∀ name ∈ glyphNames, (ofChars name.toList).FillsUnreserved glyphScales := by
    decide +kernel
  have hresolved : List.Forall₂ (fun name text => glyphScales.resolve name = .ok text)
      glyphNames ["icons/ui", "~24"] :=
    .cons (eq_ok_of_toOption (by decide +kernel))
      (.cons (eq_ok_of_toOption (by decide +kernel)) .nil)
  exact ⟨hrange, hclosed, hfills, hresolved, (expand_segments hrange hclosed hfills hresolved).1⟩

/-- A table with a slash in a name, and one in a value. -/
def slashed : Variables := .ofEntries [("font/size", .str "lg"), ("icon", .str "arrow/left")]

/-- Segments that are resolved one by one, but not as a list: a name is looked up as it is
    escaped, a value is taken apart at its slash, and a span that is open in one segment is
    closed in the next. -/
theorem expand_segments_slashed :
    (slashed.resolve "$\x7b\x7b font/size \x7d\x7d" = .ok "lg" ∧
      (segments ["$\x7b\x7b font/size \x7d\x7d"]).expand slashed
        = .error (.variable (.notFound "font~1size" []))) ∧
    (slashed.resolve "$\x7b\x7b icon \x7d\x7d" = .ok "arrow/left" ∧
      (segments ["$\x7b\x7b icon \x7d\x7d"]).expand slashed = .ok [⟨["arrow", "left"]⟩]) ∧
    (slashed.resolve "$\x7b\x7b icon" = .ok "$\x7b\x7b icon" ∧
      slashed.resolve "set \x7d\x7d" = .ok "set \x7d\x7d" ∧
      (segments ["$\x7b\x7b icon", "set \x7d\x7d"]).expand slashed
        = .error (.variable (.notFound "icon/set" []))) :=
  ⟨⟨eq_ok_of_toOption (by decide +kernel), eq_error_of_fault? (by decide +kernel)⟩,
    ⟨eq_ok_of_toOption (by decide +kernel), eq_ok_of_toOption (by decide +kernel)⟩,
    eq_ok_of_toOption (by decide +kernel), eq_ok_of_toOption (by decide +kernel),
    eq_error_of_fault? (by decide +kernel)⟩

end WrittenPath

end DesignTokens
