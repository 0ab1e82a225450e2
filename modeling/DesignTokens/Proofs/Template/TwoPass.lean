/-
  DesignTokens.Proofs.Template.TwoPass — two passes over a text make what one pass makes.

  The values of a combination are written into a text first; the spans of all other names are
  kept, and a second source fills them later.  One pass whose source asks the combination for
  the names of the matrix, and the second source for all others, makes the same text, provided
  that the values hold no marks and that no key of the combination holds a dollar.

  What the first pass writes is text of its input, values, and kept spans.  The braces in it
  stand where they stood, or in kept spans, so the second pass meets the spans that the first
  one kept and no others.

  Main facts:
    * `braces_prefix_of_render` — braces at the front of what is rendered were there before.
    * `exists_reads_of_body` — what the first pass makes of a body is read by the second.
    * `render_ofChars_of_two` — two passes over a text, for sources that split the work.
    * `resolve_combination_then` — two passes when the first source is a combination.
-/
import DesignTokens.Patch.Matrix
import DesignTokens.Proofs.Template.Reading

namespace DesignTokens

namespace Template

/-! ## §1. Sources that split the work -/

/-- A value text that cannot become part of a mark, wherever it is written. -/
structure Plain (text : List Char) : Prop where
  nonempty : text ≠ []
  dollar : '$' ∉ text
  opening : '{' ∉ text
  closing : '}' ∉ text

/-- Two sources split the work of one.  The first keeps a span or fills it as the one does,
    with a plain text and under a name without dollars; the second fills a span as the one
    does. -/
structure Splits (first second whole : Variables) : Prop where
  fill_first : ∀ name text, first.fill name = .ok text →
    text = keptSpan name ∨
      (Plain text ∧ '$' ∉ name.toList ∧ whole.fill name = .ok text)
  fill_second : ∀ name text, second.fill name = .ok text → whole.fill name = .ok text

variable {first second whole : Variables} {s u : List Char} {t : Template}

/-! ## §2. What the first pass writes -/

theorem dollar_mem_keptSpan (name : String) : '$' ∈ keptSpan name := by
  unfold keptSpan openMark
  simp

/-- A brace at the front of what is rendered was at the front before. -/
theorem brace_of_render (hs : Splits first second whole) {c : Char} (hc : c = '{' ∨ c = '}')
    (h : t.render first = .ok (c :: u)) :
    ∃ t' : Template, t.literal = c :: t'.literal ∧ t'.render first = .ok u := by
  induction t with
  | done => cases h
  | text chars rest ih =>
    rw [render_text] at h
    cases chars with
    | nil =>
      obtain ⟨y, hy, rfl⟩ := map_eq_ok_iff.1 h
      obtain ⟨t', hliteral, ht'⟩ := ih hy
      exact ⟨t', hliteral, ht'⟩
    | cons d chars =>
      obtain ⟨y, hy, heq⟩ := map_eq_ok_iff.1 h
      obtain ⟨rfl, rfl⟩ := List.cons.inj heq
      refine ⟨.text chars rest, rfl, ?_⟩
      rw [render_text, hy]
      rfl
  | span body rest =>
    rw [render_span] at h
    obtain ⟨written, filled, following, -, hfill, -, heq⟩ := spanText_eq_ok_iff.1 h
    -- a kept span starts with a dollar, and a plain text with neither brace
    rcases hs.fill_first _ _ hfill with rfl | ⟨hplain, -, -⟩
    · rw [keptSpan_ofList_append] at heq
      obtain rfl : '$' = c := (List.cons.inj heq).1
      exact absurd hc (by decide)
    · cases filled with
      | nil => exact absurd rfl hplain.nonempty
      | cons d filled =>
        obtain ⟨rfl, -⟩ := List.cons.inj heq
        rcases hc with rfl | rfl
        · exact absurd List.mem_cons_self hplain.opening
        · exact absurd List.mem_cons_self hplain.closing

/-- **Braces at the front of what is rendered were there before.** -/
theorem braces_prefix_of_render (hs : Splits first second whole) {braces : List Char}
    (hbraces : ∀ c ∈ braces, c = '{' ∨ c = '}') (h : t.render first = .ok u)
    (hu : braces <+: u) : braces <+: t.literal := by
  induction braces generalizing t u with
  | nil => exact List.nil_prefix
  | cons c braces ih =>
    obtain ⟨tail, rfl⟩ := hu
    obtain ⟨t', hliteral, ht'⟩ := brace_of_render hs (hbraces c List.mem_cons_self) h
    rw [hliteral]
    refine List.cons_prefix_cons.2 ⟨rfl, ?_⟩
    exact ih (fun d hd => hbraces d (List.mem_cons_of_mem _ hd)) ht' (List.prefix_append _ _)

theorem openMark_prefix_of_render (hs : Splits first second whole) {c : Char}
    (h : t.render first = .ok u) (hu : openMark <+: c :: u) : openMark <+: c :: t.literal := by
  obtain ⟨hc, hbraces⟩ := openMark_prefix_iff.1 hu
  exact openMark_prefix_iff.2 ⟨hc, braces_prefix_of_render hs (by simp) h hbraces⟩

theorem closeMark_prefix_of_render (hs : Splits first second whole) {c : Char}
    (h : t.render first = .ok u) (hu : closeMark <+: c :: u) : closeMark <+: c :: t.literal := by
  obtain ⟨hc, hbraces⟩ := closeMark_prefix_iff.1 hu
  exact closeMark_prefix_iff.2 ⟨hc, braces_prefix_of_render hs (by simp) h hbraces⟩

theorem dollar_not_mem_of_trim {written : List Char}
    (h : '$' ∉ (String.ofList (Text.trim written)).toList) : '$' ∉ written := by
  rw [String.toList_ofList] at h
  intro hmem
  exact h (Text.mem_trim_of_mem (by decide) hmem)

/-- What is rendered without a dollar kept no span, so the one pass renders it alike. -/
theorem render_whole_of_dollar_not_mem (hs : Splits first second whole)
    (h : t.render first = .ok u) (hu : '$' ∉ u) : t.render whole = .ok u := by
  induction t generalizing u with
  | done => exact h
  | text chars rest ih =>
    rw [render_text] at h
    obtain ⟨y, hy, rfl⟩ := map_eq_ok_iff.1 h
    rw [render_text, ih hy fun hmem => hu (List.mem_append_right _ hmem)]
    rfl
  | span body rest ihbody ihrest =>
    rw [render_span] at h
    obtain ⟨written, filled, following, hbody, hfill, hrest, rfl⟩ := spanText_eq_ok_iff.1 h
    rcases hs.fill_first _ _ hfill with rfl | ⟨-, hname, hwhole⟩
    · exact absurd (List.mem_append_left _ (dollar_mem_keptSpan _)) hu
    · have hbody' := ihbody hbody (dollar_not_mem_of_trim hname)
      have hrest' := ihrest hrest fun hmem => hu (List.mem_append_right _ hmem)
      rw [render_span]
      exact spanText_eq_ok_iff.2 ⟨written, filled, following, hbody', hwhole, hrest', rfl⟩

/-! ## §3. One span in both passes -/

/-- The one pass renders a span that the first pass filled. -/
theorem render_whole_of_filled (hs : Splits first second whole) {body rest : Template}
    {written filled y : List Char} (hbody : body.render first = .ok written)
    (hname : '$' ∉ (String.ofList (Text.trim written)).toList)
    (hfill : whole.fill (String.ofList (Text.trim written)) = .ok filled)
    (hrest : rest.render whole = .ok y) :
    (Template.span body rest).render whole = .ok (filled ++ y) := by
  have hbody' : body.render whole = .ok written :=
    render_whole_of_dollar_not_mem hs hbody (dollar_not_mem_of_trim hname)
  rw [render_span]
  exact spanText_eq_ok_iff.2 ⟨written, filled, y, hbody', hfill, hrest, rfl⟩

/-- The one pass renders a span that the first pass kept: `inner` is what the second pass makes
    of the text of its body, and `trimmed` what it makes of that text without blanks. -/
theorem render_whole_of_kept (hs : Splits first second whole) {body rest : Template}
    {inner trimmed following : Except VariableError (List Char)} {y : List Char}
    (hbody : ∀ z, inner = .ok z → body.render whole = .ok z)
    (htrim : ∀ z', trimmed = .ok z' → ∃ z, inner = .ok z ∧ Text.trim z = Text.trim z')
    (hrest : ∀ z, following = .ok z → rest.render whole = .ok z)
    (h : second.spanText trimmed following = .ok y) :
    (Template.span body rest).render whole = .ok y := by
  obtain ⟨z', filled, behind, hz', hfill, hbehind, rfl⟩ := spanText_eq_ok_iff.1 h
  obtain ⟨z, hz, heq⟩ := htrim z' hz'
  rw [← heq] at hfill
  rw [render_span]
  exact spanText_eq_ok_iff.2
    ⟨z, filled, behind, hbody z hz, hs.fill_second _ _ hfill, hrest behind hbehind, rfl⟩

/-- Text that starts no mark is read as it stands. -/
theorem reads_append {text : List Char} (hdollar : '$' ∉ text) (hclosing : '}' ∉ text)
    {result : Except VariableError (List Char)} (h : Reads second s result) :
    Reads second (text ++ s) (result.map (text ++ ·)) := by
  induction text with
  | nil =>
    have hmap : result.map ([] ++ ·) = result := by cases result <;> rfl
    rwa [hmap]
  | cons c text ih =>
    have htail : Reads second (text ++ s) (result.map (text ++ ·)) :=
      ih (fun hmem => hdollar (List.mem_cons_of_mem _ hmem))
        (fun hmem => hclosing (List.mem_cons_of_mem _ hmem))
    have hmark : ¬ StartsMark (c :: (text ++ s)) :=
      not_startsMark_of_ne (fun hc => hdollar (hc ▸ List.mem_cons_self))
        (fun hc => hclosing (hc ▸ List.mem_cons_self)) _
    have hmap : result.map (c :: text ++ ·) = (result.map (text ++ ·)).map (c :: ·) := by
      cases result <;> rfl
    rw [hmap]
    exact Reads.char hmark htail

/-! ## §4. Bodies and texts in both passes -/

/-- **What the first pass makes of a body is read by the second**, and what the second makes of
    it the one pass makes of the body. -/
theorem exists_reads_of_body (hs : Splits first second whole) {rest : List Char}
    (hbody : Body s t rest) (h : t.render first = .ok u) :
    ∃ result, Reads second u result ∧ ∀ y, result = .ok y → t.render whole = .ok y := by
  induction hbody generalizing u with
  | close rest =>
    cases h
    exact ⟨_, Reads.nil, fun y hy => hy⟩
  | @span inside behind rest inner t hinner hrest ihinner ihrest =>
    rw [render_span] at h
    obtain ⟨written, filled, following, hwritten, hfill, hfollowing, rfl⟩ :=
      spanText_eq_ok_iff.1 h
    obtain ⟨inner', hreads, hsim⟩ := ihinner hwritten
    obtain ⟨rest', hreads', hsim'⟩ := ihrest hfollowing
    rcases hs.fill_first _ _ hfill with rfl | ⟨hplain, hname, hwhole⟩
    · obtain ⟨trimmed, hreadsTrim, htrim⟩ := reads_trim hreads
      refine ⟨_, Reads.span hreadsTrim hreads', ?_⟩
      intro y hy
      exact render_whole_of_kept hs hsim htrim hsim' hy
    · refine ⟨_, reads_append hplain.dollar hplain.closing hreads', ?_⟩
      intro y hy
      obtain ⟨z, hz, rfl⟩ := map_eq_ok_iff.1 hy
      exact render_whole_of_filled hs hwritten hname hwhole (hsim' z hz)
  | @char c next rest t hmark hnext ih =>
    rw [render_pushChar] at h
    obtain ⟨u, hu, rfl⟩ := map_eq_ok_iff.1 h
    obtain ⟨result, hreads, hsim⟩ := ih hu
    have hnext' : c :: next = (c :: t.literal) ++ (closeMark ++ rest) := by
      rw [literal_of_body hnext, List.append_assoc, List.cons_append]
    rw [hnext'] at hmark
    -- a mark in what is written would have been one in the text
    refine ⟨_, Reads.char ?_ hreads, ?_⟩
    · rintro (hopen | hclose)
      · have hopen' := openMark_prefix_of_render hs hu hopen
        exact hmark (Or.inl (List.prefix_append_of_prefix hopen'))
      · have hclose' := closeMark_prefix_of_render hs hu hclose
        exact hmark (Or.inr (List.prefix_append_of_prefix hclose'))
    · intro y hy
      obtain ⟨z, hz, rfl⟩ := map_eq_ok_iff.1 hy
      rw [render_pushChar, hsim z hz]
      rfl

theorem render_ofChars_append_of_dollar_not_mem {text : List Char} (h : '$' ∉ text)
    (vars : Variables) (s : List Char) :
    (ofChars (text ++ s)).render vars = ((ofChars s).render vars).map (text ++ ·) := by
  induction text with
  | nil =>
    show (ofChars s).render vars = _
    cases (ofChars s).render vars <;> rfl
  | cons c text ih =>
    have hmark : ¬ openMark <+: c :: (text ++ s) := by
      intro hopen
      exact h ((openMark_prefix_iff.1 hopen).1 ▸ List.mem_cons_self)
    rw [List.cons_append, ofChars_cons hmark, render_pushChar,
      ih fun hmem => h (List.mem_cons_of_mem _ hmem)]
    cases (ofChars s).render vars <;> rfl

/-- **Two passes over a text**, by sources that split the work of one, make what the one pass
    makes. -/
theorem render_ofChars_of_two (hs : Splits first second whole) {y : List Char}
    (h₁ : (ofChars s).render first = .ok u) (h₂ : (ofChars u).render second = .ok y) :
    (ofChars s).render whole = .ok y := by
  fun_induction ofChars s generalizing u y with
  | case1 =>
    cases h₁
    rw [ofChars_nil] at h₂
    exact h₂
  | case2 inside hopen =>
    -- a span that is never closed is text in every pass
    have hread : ofChars (openMark ++ inside) = .text (openMark ++ inside) .done :=
      ofChars_of_unclosed hopen
    rw [render_text_done] at h₁
    cases h₁
    rw [show '$' :: '{' :: '{' :: inside = openMark ++ inside from rfl, hread,
      render_text_done] at h₂
    rw [render_text_done]
    exact h₂
  | case3 inside inner behind hlt hinner ih =>
    have hbody : Body inside inner behind := body_of_body? hinner
    rw [render_span] at h₁
    obtain ⟨written, filled, following, hwritten, hfill, hfollowing, rfl⟩ :=
      spanText_eq_ok_iff.1 h₁
    rcases hs.fill_first _ _ hfill with rfl | ⟨hplain, hname, hwhole⟩
    · obtain ⟨result, hreads, hsim⟩ := exists_reads_of_body hs hbody hwritten
      obtain ⟨trimmed, hreadsTrim, htrim⟩ := reads_trim hreads
      rw [render_ofChars_keptSpan hreadsTrim] at h₂
      exact render_whole_of_kept hs hsim htrim (fun z hz => ih hfollowing hz) h₂
    · rw [render_ofChars_append_of_dollar_not_mem hplain.dollar] at h₂
      obtain ⟨z, hz, rfl⟩ := map_eq_ok_iff.1 h₂
      exact render_whole_of_filled hs hwritten hname hwhole (ih hfollowing hz)
  | case4 c next hc ih =>
    rw [render_pushChar] at h₁
    obtain ⟨u, hu, rfl⟩ := map_eq_ok_iff.1 h₁
    have hmark : ¬ openMark <+: c :: u := by
      intro hopen
      have hopen' := openMark_prefix_of_render hs hu hopen
      rw [literal_ofChars] at hopen'
      obtain ⟨rfl, inside, rfl⟩ := openMark_prefix_iff.1 hopen'
      exact hc inside rfl rfl
    rw [ofChars_cons hmark, render_pushChar] at h₂
    obtain ⟨z, hz, rfl⟩ := map_eq_ok_iff.1 h₂
    rw [render_pushChar, ih hu hz]
    rfl

end Template

/-! ## §5. Combinations first -/

open Template (keptSpan Plain Splits)

/-- A combination whose keys hold no dollar, and whose value texts cannot become part of a
    mark. -/
structure Combination.Unmarked (c : Combination) : Prop where
  keys : ∀ key ∈ Entries.keys c, '$' ∉ key.toList
  values : ∀ entry ∈ c, ∀ text, entry.2.scalarText? = some text → Plain text.toList

namespace Variables

theorem fill_of_lookup_eq {vars others : Variables} {name : String} {text : List Char}
    (hlookup : others.lookup name = vars.lookup name) (h : vars.fill name = .ok text) :
    others.fill name = .ok text := by
  unfold fill at h ⊢
  rw [hlookup]
  cases hanswer : vars.lookup name with
  | value value => rw [hanswer] at h; exact h
  | ignore => rw [hanswer] at h; exact h
  | missing => rw [hanswer] at h; cases h

/-- A span is kept, or it is filled with the text of the value of its name. -/
theorem kept_or_filled {vars : Variables} {name : String} {text : List Char}
    (h : vars.fill name = .ok text) :
    text = keptSpan name ∨
      ∃ value valueText, vars.lookup name = .value value ∧
        value.scalarText? = some valueText ∧ text = valueText.toList := by
  unfold fill at h
  cases hanswer : vars.lookup name with
  | missing => rw [hanswer] at h; cases h
  | ignore =>
    rw [hanswer] at h
    exact Or.inl (Except.ok.inj h).symm
  | value value =>
    rw [hanswer] at h
    dsimp only at h
    split at h
    · cases h
    · split at h
      · next valueText hvalueText =>
        exact Or.inr ⟨value, valueText, rfl, hvalueText, (Except.ok.inj h).symm⟩
      · exact Or.inl (Except.ok.inj h).symm

/-- A combination answers the names of its entries, in the namespace of the matrix. -/
theorem exists_key_of_lookup {c : Combination} {name : String} {value : Tree}
    (h : (ofCombination c).lookup name = .value value) :
    ∃ key, name.toList = matrixNamespace ++ key ∧ (String.ofList key, value) ∈ c := by
  unfold ofCombination at h
  dsimp only at h
  split at h
  · cases h
  · next key hkey =>
    split at h
    · next found hfound =>
      obtain rfl : found = value := Lookup.value.inj h
      exact ⟨key, Text.eq_append_of_isPrefixOf? hkey, Entries.mem_of_get? hfound⟩
    · cases h

/-- A combination keeps a span, or it fills it with a plain text under a name without dollars,
    in the namespace of the matrix. -/
theorem fill_ofCombination {c : Combination} (hc : c.Unmarked) {name : String}
    {text : List Char} (h : (ofCombination c).fill name = .ok text) :
    text = keptSpan name ∨
      (Plain text ∧ '$' ∉ name.toList ∧ matrixNamespace <+: name.toList) := by
  rcases kept_or_filled h with hkept | ⟨value, valueText, hlookup, hvalueText, rfl⟩
  · exact Or.inl hkept
  · obtain ⟨key, hname, hentry⟩ := exists_key_of_lookup hlookup
    have hkey : '$' ∉ key := by
      have hdollar := hc.keys _ (List.mem_map_of_mem hentry)
      rwa [String.toList_ofList] at hdollar
    refine Or.inr ⟨hc.values _ hentry _ hvalueText, ?_, ?_⟩
    · rw [hname, List.mem_append]
      rintro (hmem | hmem)
      · exact absurd hmem (by decide)
      · exact hkey hmem
    · rw [hname]
      exact List.prefix_append _ _

variable {c : Combination} {later whole : Variables}

/-- A combination and a source that knows no name of the matrix split the work of a source that
    answers as either of them. -/
theorem splits_ofCombination (hc : c.Unmarked)
    (hlater : ∀ name, matrixNamespace <+: name.toList → later.lookup name = .missing)
    (hmatrix : ∀ name, matrixNamespace <+: name.toList →
      whole.lookup name = (ofCombination c).lookup name)
    (hother : ∀ name, ¬ matrixNamespace <+: name.toList →
      whole.lookup name = later.lookup name) :
    Splits (ofCombination c) later whole where
  fill_first := by
    intro name text h
    rcases fill_ofCombination hc h with hkept | ⟨hplain, hdollar, hname⟩
    · exact Or.inl hkept
    · exact Or.inr ⟨hplain, hdollar, fill_of_lookup_eq (hmatrix name hname) h⟩
  fill_second := by
    intro name text h
    by_cases hname : matrixNamespace <+: name.toList
    · unfold fill at h
      rw [hlater name hname] at h
      cases h
    · exact fill_of_lookup_eq (hother name hname) h

/-- **Two passes make what one pass makes.**  A text whose spans are filled from a combination,
    and those that are kept from a source that knows no name of the matrix, is the text that
    one pass makes whose source answers as either of them. -/
theorem resolve_combination_then (hc : c.Unmarked)
    (hlater : ∀ name, matrixNamespace <+: name.toList → later.lookup name = .missing)
    (hmatrix : ∀ name, matrixNamespace <+: name.toList →
      whole.lookup name = (ofCombination c).lookup name)
    (hother : ∀ name, ¬ matrixNamespace <+: name.toList →
      whole.lookup name = later.lookup name)
    {input between output : String}
    (hfirst : (ofCombination c).resolve input = .ok between)
    (hsecond : later.resolve between = .ok output) :
    whole.resolve input = .ok output := by
  unfold resolve at hfirst hsecond ⊢
  obtain ⟨u, hu, rfl⟩ := map_eq_ok_iff.1 hfirst
  obtain ⟨y, hy, rfl⟩ := map_eq_ok_iff.1 hsecond
  rw [String.toList_ofList] at hy
  have hs : Splits (ofCombination c) later whole :=
    splits_ofCombination hc hlater hmatrix hother
  rw [Template.render_ofChars_of_two hs hu hy]
  rfl

/-- A combination with one value and one key that is left open. -/
def sizes : Combination := [("size", .str "lg"), ("weight", .null)]

/-- A table that knows a scale and leaves one name open. -/
def scales : Variables := ofEntries [("scale.lg", .str "1.5"), ("unit", .null)]

/-- The source that asks the combination and the table. -/
def sizesAndScales : Variables where
  lookup name :=
    if matrixNamespace.isPrefixOf name.toList then (ofCombination sizes).lookup name
    else scales.lookup name
  names := scales.names

/-- A span in the name of another one, a span without a value, and one that is never closed:
    `${{scale.${{ matrix.size }}}}{${{ unit}} ${{ matrix.size`. -/
def sizesText : String :=
  "$\x7b\x7bscale.$\x7b\x7b matrix.size \x7d\x7d\x7d\x7d\x7b$\x7b\x7b unit\x7d\x7d $\x7b\x7b matrix.size"

/-- What the combination makes of it:
    `${{ scale.lg }}{${{ unit }} ${{ matrix.size`. -/
def scalesText : String :=
  "$\x7b\x7b scale.lg \x7d\x7d\x7b$\x7b\x7b unit \x7d\x7d $\x7b\x7b matrix.size"

/-- What the table makes of that: `1.5{${{ unit }} ${{ matrix.size`. -/
def settledText : String := "1.5\x7b$\x7b\x7b unit \x7d\x7d $\x7b\x7b matrix.size"

/-- The three passes over such a text. -/
theorem resolve_sizes_then_scales :
    (ofCombination sizes).resolve sizesText = .ok scalesText ∧
      scales.resolve scalesText = .ok settledText ∧
      sizesAndScales.resolve sizesText = .ok settledText := by
  have hfirst : (ofCombination sizes).resolve sizesText = .ok scalesText :=
    eq_ok_of_toOption (by decide +kernel)
  have hsecond : scales.resolve scalesText = .ok settledText :=
    eq_ok_of_toOption (by decide +kernel)
  have hsizes : sizes.Unmarked := by
    refine ⟨by decide, ?_⟩
    intro entry hentry text htext
    simp only [sizes, List.mem_cons, List.not_mem_nil, or_false] at hentry
    rcases hentry with rfl | rfl
    · cases htext
      exact ⟨by decide, by decide, by decide, by decide⟩
    · cases htext
  refine ⟨hfirst, hsecond, resolve_combination_then hsizes ?_ ?_ ?_ hfirst hsecond⟩
  · intro name hname
    have hnone : Entries.get? name [("scale.lg", Tree.str "1.5"), ("unit", Tree.null)] = none := by
      refine Entries.get?_eq_none_iff.2 fun hmem => ?_
      simp only [Entries.keys, List.map_cons, List.map_nil, List.mem_cons, List.not_mem_nil,
        or_false] at hmem
      rcases hmem with rfl | rfl
      · exact absurd hname (by decide)
      · exact absurd hname (by decide)
    simp only [scales, ofEntries, hnone]
  · intro name hname
    exact if_pos (List.isPrefixOf_iff_prefix.2 hname)
  · intro name hname
    exact if_neg fun h => hname (List.isPrefixOf_iff_prefix.1 h)

end Variables

end DesignTokens
