/-
  DesignTokens.Proofs.Range.Product — a text with spans stands for a product.

  A text is split at its spans from the left: each opens at the first mark of what is left, and
  its body ends at the first closing mark behind that.  A text has at most one such split.

  The values of a text are put together from the left, span by span.  What has been put together
  before a span is continued by each of its values, so the later spans vary faster; and what
  stands behind the last span is added once, at the end.  The invariant of this is that the
  texts put together so far, continued by every choice from the spans that are left, are the
  values of the text.

  Main facts:
    * `cut?_eq_some_iff` — a cut is made at the first occurrence of a mark.
    * `split_unique` — a text has at most one split.
    * `exists_split_of_expandFrom` — the values behind texts that have been put together.
    * `expand_product` — the values of a text.
-/
import DesignTokens.Proofs.Outcome
import DesignTokens.Range.Expand
import Mathlib

namespace DesignTokens

/-! ## §1. First occurrences -/

namespace Text

/-- The text is cut at the first occurrence of a mark: none begins further to the left. -/
structure CutFirst (mark s before after : List Char) : Prop where
  eq : s = before ++ mark ++ after
  first : ∀ k < before.length, ¬ mark <+: s.drop k

theorem isPrefixOf?_eq_some_iff {mark s rest : List Char} :
    mark.isPrefixOf? s = some rest ↔ s = mark ++ rest := by
  refine ⟨eq_append_of_isPrefixOf?, ?_⟩
  rintro rfl
  induction mark with
  | nil => rfl
  | cons m mark ih =>
    show (if m == m then mark.isPrefixOf? (mark ++ rest) else none) = some rest
    rw [if_pos BEq.rfl, ih]

theorem isPrefixOf?_eq_none_iff {mark s : List Char} :
    mark.isPrefixOf? s = none ↔ ¬ mark <+: s := by
  rw [Option.eq_none_iff_forall_ne_some]
  constructor
  · rintro h ⟨rest, hrest⟩
    exact h rest (isPrefixOf?_eq_some_iff.2 hrest.symm)
  · intro h rest hrest
    exact h ⟨rest, (isPrefixOf?_eq_some_iff.1 hrest).symm⟩

/-- **A cut is made at the first occurrence of a mark.** -/
theorem cut?_eq_some_iff {mark s before after : List Char} (hmark : mark ≠ []) :
    cut? mark s = some (before, after) ↔ CutFirst mark s before after := by
  induction s generalizing before with
  | nil =>
    refine iff_of_false (fun h => nomatch h) ?_
    rintro ⟨heq, -⟩
    simp [hmark] at heq
  | cons c s ih =>
    rw [cut?]
    cases hprefix : mark.isPrefixOf? (c :: s) with
    | some rest =>
      have hstart : c :: s = mark ++ rest := isPrefixOf?_eq_some_iff.1 hprefix
      simp only [Option.some.injEq, Prod.mk.injEq]
      constructor
      · rintro ⟨rfl, rfl⟩
        exact ⟨hstart, fun k hk => absurd hk (Nat.not_lt_zero k)⟩
      · rintro ⟨heq, hfirst⟩
        have hnil : before = [] := by
          by_contra hne
          exact hfirst 0 (List.length_pos_iff.2 hne) ⟨rest, hstart.symm⟩
        subst hnil
        exact ⟨rfl, List.append_cancel_left (hstart.symm.trans heq)⟩
    | none =>
      have hstart : ¬ mark <+: c :: s := isPrefixOf?_eq_none_iff.1 hprefix
      simp only [Option.map_eq_some_iff, Prod.mk.injEq, Prod.exists]
      -- no mark begins here, so the first one of the rest is the first of all
      constructor
      · rintro ⟨front, behind, hcut, rfl, rfl⟩
        obtain ⟨heq, hfirst⟩ := ih.1 hcut
        refine ⟨by rw [heq]; rfl, fun k hk => ?_⟩
        cases k with
        | zero => exact hstart
        | succ k => exact hfirst k (Nat.lt_of_succ_lt_succ hk)
      · rintro ⟨heq, hfirst⟩
        cases before with
        | nil => exact absurd ⟨after, heq.symm⟩ hstart
        | cons d front =>
          obtain ⟨rfl, hs⟩ := List.cons.inj heq
          have hcut : CutFirst mark s front after :=
            ⟨hs, fun k hk => hfirst (k + 1) (Nat.succ_lt_succ hk)⟩
          exact ⟨front, after, ih.2 hcut, rfl, rfl⟩

/-- Where no cut is made the mark does not occur. -/
theorem cut?_eq_none_iff {mark s : List Char} (hmark : mark ≠ []) :
    cut? mark s = none ↔ ¬ mark <:+: s := by
  induction s with
  | nil => simp [cut?, hmark]
  | cons c s ih =>
    rw [cut?, List.infix_cons_iff, not_or]
    cases hprefix : mark.isPrefixOf? (c :: s) with
    | some rest =>
      have hstart : mark <+: c :: s := ⟨rest, (isPrefixOf?_eq_some_iff.1 hprefix).symm⟩
      exact iff_of_false (Option.some_ne_none _) fun h => h.1 hstart
    | none =>
      rw [Option.map_eq_none_iff, ih]
      exact ⟨fun h => ⟨isPrefixOf?_eq_none_iff.1 hprefix, h⟩, fun h => h.2⟩

end Text

namespace Range

open Text (CutFirst cut?_eq_some_iff cut?_eq_none_iff)

/-! ## §2. Splits -/

/-- A span of a text: what stands in front of it, behind the span before, and what it holds. -/
structure Span where
  before : List Char
  body : List Char
deriving Repr, DecidableEq

/-- The spans of a text from the left, and what stands behind the last. -/
inductive Split : List Char → List Span → List Char → Prop where
  | done {text : List Char} (hopen : ¬ openMark <:+: text) : Split text [] text
  | span {text before behind body rest last : List Char} {spans : List Span}
    (hopen : CutFirst openMark text before behind) (hclose : CutFirst closeMark behind body rest)
    (hrest : Split rest spans last) : Split text (⟨before, body⟩ :: spans) last

theorem openMark_ne_nil : openMark ≠ [] := List.cons_ne_nil _ _

theorem closeMark_ne_nil : closeMark ≠ [] := List.cons_ne_nil _ _

/-- A text is cut at the first occurrence of a mark in one way. -/
theorem cutFirst_unique {mark s before after before' after' : List Char} (hmark : mark ≠ [])
    (h : CutFirst mark s before after) (h' : CutFirst mark s before' after') :
    before = before' ∧ after = after' := by
  have hcut := ((cut?_eq_some_iff hmark).2 h).symm.trans ((cut?_eq_some_iff hmark).2 h')
  exact Prod.mk.inj (Option.some.inj hcut)

/-- **A text has at most one split.** -/
theorem split_unique {text last last' : List Char} {spans spans' : List Span}
    (h : Split text spans last) (h' : Split text spans' last') : spans = spans' ∧ last = last' := by
  have hnone : ∀ {text before behind : List Char}, CutFirst openMark text before behind →
      openMark <:+: text := fun hcut => ⟨_, _, hcut.eq.symm⟩
  induction h generalizing spans' last' with
  | done hopen =>
    cases h' with
    | done => exact ⟨rfl, rfl⟩
    | span hopen' => exact absurd (hnone hopen') hopen
  | span hopen hclose hrest ih =>
    cases h' with
    | done hopen' => exact absurd (hnone hopen) hopen'
    | span hopen' hclose' hrest' =>
      obtain ⟨rfl, rfl⟩ := cutFirst_unique openMark_ne_nil hopen hopen'
      obtain ⟨rfl, rfl⟩ := cutFirst_unique closeMark_ne_nil hclose hclose'
      obtain ⟨rfl, rfl⟩ := ih hrest'
      exact ⟨rfl, rfl⟩

/-! ## §3. Choices -/

/-- Every choice of one value from each list, the first list varying slowest. -/
def choices : List (List String) → List (List String)
  | [] => [[]]
  | values :: rest => values.flatMap fun value => (choices rest).map (value :: ·)

theorem length_choices (options : List (List String)) :
    (choices options).length = (options.map List.length).prod := by
  induction options with
  | nil => rfl
  | cons values rest ih =>
    rw [choices, List.length_flatMap, List.map_cons, List.prod_cons]
    simp [ih]

/-- The text with a value in the place of each span. -/
def filled : List Span → List String → List Char → String
  | span :: spans, value :: chosen, last =>
    String.ofList span.before ++ value ++ filled spans chosen last
  | _, _, last => String.ofList last

/-- Behind the last span there is nothing left to choose. -/
theorem flatMap_filled_nil (starts : List String) (last : List Char) :
    (starts.flatMap fun start => (choices []).map fun chosen => start ++ filled [] chosen last)
      = starts.map (· ++ String.ofList last) :=
  List.map_eq_flatMap.symm

theorem length_continued (starts values : List String) (between : List Char) :
    (continued starts between values).length = starts.length * values.length := by
  rw [continued, List.length_flatMap]
  simp

/-- Texts that are continued by the values of a span, and then by every choice from the spans
    behind it. -/
theorem flatMap_continued (starts values : List String) (before body last : List Char)
    (spans : List Span) (options : List (List String)) :
    ((continued starts before values).flatMap fun start =>
        (choices options).map fun chosen => start ++ filled spans chosen last)
      = starts.flatMap fun start => (choices (values :: options)).map fun chosen =>
          start ++ filled (⟨before, body⟩ :: spans) chosen last := by
  unfold continued
  rw [List.flatMap_assoc]
  congr 1
  funext start
  rw [choices, List.map_flatMap, List.flatMap_map]
  congr 1
  funext value
  rw [List.map_map]
  apply List.map_congr_left
  intro chosen _
  show start ++ String.ofList before ++ value ++ filled spans chosen last
    = start ++ (String.ofList before ++ value ++ filled spans chosen last)
  rw [String.append_assoc, String.append_assoc, String.append_assoc]

/-! ## §4. Values -/

/-- **The values behind texts that have been put together**: each of these texts is continued by
    every choice from the spans that are left. -/
theorem exists_split_of_expandFrom {input : String} {s : List Char} {starts out : List String}
    (h : (Pattern.ofChars s).expandFrom input starts = .ok out) :
    ∃ spans last options, Split s spans last ∧
      spans.mapM (fun span => expandSpan span.body) = .ok options ∧
      out = (starts.flatMap fun start =>
        (choices options).map fun chosen => start ++ filled spans chosen last) ∧
      (starts.length ≤ maxExpansion → out.length ≤ maxExpansion) := by
  -- the pattern of a text is cut where its split is, so its recursion is followed
  fun_induction Pattern.ofChars s generalizing starts with
  | case1 s hopen =>
    cases h
    refine ⟨[], s, [], .done ((cut?_eq_none_iff openMark_ne_nil).1 hopen), rfl, ?_, ?_⟩
    · exact (flatMap_filled_nil starts s).symm
    · intro hle
      rwa [List.length_map]
  | case2 s before behind hopen hclose => cases h
  | case3 s before behind hopen body rest hclose ih =>
    obtain ⟨values, hvalues, hcontinued⟩ := bind_eq_ok_iff.1 h
    split at hcontinued
    · cases hcontinued
    · next hfits =>
      obtain ⟨spans, last, options, hsplit, hoptions, hout, hbound⟩ := ih hcontinued
      refine ⟨⟨before, body⟩ :: spans, last, values :: options, ?_, ?_, ?_, ?_⟩
      · exact .span ((cut?_eq_some_iff openMark_ne_nil).1 hopen)
          ((cut?_eq_some_iff closeMark_ne_nil).1 hclose) hsplit
      · rw [List.mapM_cons, hvalues, hoptions]
        rfl
      · rw [hout, flatMap_continued]
      · -- the limit has been checked for the texts that are continued here
        intro _
        exact hbound (by rw [length_continued]; omega)

/-- **The values of a text.**  The text is split at its spans, which can be done in one way.  Its
    values are the texts that stand between the spans, put together around every choice of a
    value from each span, the first span varying slowest.  There are as many as the product of
    what the spans hold, and never more than the limit. -/
theorem expand_product {input : String} {out : List String} (h : expand input = .ok out) :
    ∃ spans last options, Split input.toList spans last ∧
      (∀ spans' last', Split input.toList spans' last' → spans' = spans ∧ last' = last) ∧
      spans.mapM (fun span => expandSpan span.body) = .ok options ∧
      out = (choices options).map (fun chosen => filled spans chosen last) ∧
      out.length = (options.map List.length).prod ∧ out.length ≤ maxExpansion := by
  obtain ⟨spans, last, options, hsplit, hoptions, hout, hbound⟩ := exists_split_of_expandFrom h
  have hvalues : out = (choices options).map fun chosen => filled spans chosen last := by
    rw [hout, List.flatMap_singleton]
    simp only [String.empty_append]
  refine ⟨spans, last, options, hsplit, ?_, hoptions, hvalues, ?_, ?_⟩
  · intro spans' last' hsplit'
    exact split_unique hsplit' hsplit
  · rw [hvalues, List.length_map, length_choices]
  · exact hbound (by decide)

/-- Brackets that open or close no span, and a span behind another. -/
def strayBrackets : String := "a]]$[[1..2]]/[[$[[s,l]]$"

/-- The brackets around the spans stay. -/
theorem expand_product_strayBrackets :
    expand strayBrackets = .ok ["a]]1/[[s$", "a]]1/[[l$", "a]]2/[[s$", "a]]2/[[l$"] ∧
      ∃ spans last options, Split strayBrackets.toList spans last ∧
        ["a]]1/[[s$", "a]]1/[[l$", "a]]2/[[s$", "a]]2/[[l$"]
          = (choices options).map (fun chosen => filled spans chosen last) ∧
        4 = (options.map List.length).prod := by
  have hvalues : expand strayBrackets
      = .ok ["a]]1/[[s$", "a]]1/[[l$", "a]]2/[[s$", "a]]2/[[l$"] :=
    eq_ok_of_toOption (by decide +kernel)
  obtain ⟨spans, last, options, hsplit, -, -, hout, hlength, -⟩ := expand_product hvalues
  exact ⟨hvalues, spans, last, options, hsplit, hout, hlength⟩

end Range

end DesignTokens
