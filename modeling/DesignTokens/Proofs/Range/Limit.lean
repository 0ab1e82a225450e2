/-
  DesignTokens.Proofs.Range.Limit — which texts have too many values.

  The limit is tested behind every span, for the product of the spans so far.  As long as no span
  is empty this product never gets smaller, so a test fails on the way exactly if it fails at the
  end.  From an empty span on there is nothing left to continue, and no test fails any more; but
  a test that failed before is not taken back.  So what is tested is the product of the spans in
  front of the first empty one.  Where that is too large, a text without any value is refused for
  having too many.

  Main facts:
    * `split_iff` — a text is split as it is taken apart.
    * `expandFrom_eq` — texts that have been put together are refused by the peak of what follows.
    * `reports_excess_iff` — the peak and the number of values lie on one side of the limit.
    * `tooLarge_iff_excess` — which texts are refused, and where it is for real excess.
    * `refused_without_values` — a text that is refused and has no value.
-/
import DesignTokens.Proofs.Range.Product

namespace DesignTokens.Range

/-! ## §1. Peaks -/

/-- The most texts that are put together on the way, for the numbers of values of the spans: from
    an empty span on there are none. -/
def peak (sizes : List Nat) : Nat := (sizes.takeWhile (· ≠ 0)).prod

@[simp] theorem peak_nil : peak [] = 1 := rfl

@[simp] theorem peak_zero (sizes : List Nat) : peak (0 :: sizes) = 1 := rfl

@[simp] theorem peak_succ (n : Nat) (sizes : List Nat) :
    peak ((n + 1) :: sizes) = (n + 1) * peak sizes := by
  simp [peak]

/-- There is always the text that is begun with. -/
theorem peak_pos (sizes : List Nat) : 0 < peak sizes := by
  refine List.prod_pos fun size hsize => ?_
  have hne : size ≠ 0 := by simpa using List.mem_takeWhile_imp hsize
  exact Nat.pos_of_ne_zero hne

/-- Without an empty span the peak is reached at the end. -/
theorem peak_of_not_mem {sizes : List Nat} (h : 0 ∉ sizes) : peak sizes = sizes.prod := by
  have hall : sizes.takeWhile (· ≠ 0) = sizes := by
    rw [List.takeWhile_eq_self_iff]
    intro size hsize
    have hne : size ≠ 0 := fun hzero => h (hzero ▸ hsize)
    simpa using hne
  rw [peak, hall]

/-- **The peak and the number of values lie on one side of a limit**, unless the spans in front
    of an empty one exceed it. -/
theorem reports_excess_iff (limit : Nat) (sizes : List Nat) :
    (limit < peak sizes ↔ limit < sizes.prod) ↔ (0 ∈ sizes → peak sizes ≤ limit) := by
  by_cases hzero : 0 ∈ sizes
  · have hprod : sizes.prod = 0 := List.prod_eq_zero hzero
    rw [hprod]
    constructor
    · intro hiff _
      exact Nat.not_lt.1 fun hlarge => Nat.not_lt_zero limit (hiff.1 hlarge)
    · intro hle
      exact iff_of_false (Nat.not_lt.2 (hle hzero)) (Nat.not_lt_zero limit)
  · rw [peak_of_not_mem hzero]
    exact iff_of_true Iff.rfl fun hmem => absurd hmem hzero

/-! ## §2. Patterns of split texts -/

theorem ofChars_done {text : List Char} (hopen : ¬ openMark <:+: text) :
    Pattern.ofChars text = .tail text := by
  have hcut := (Text.cut?_eq_none_iff openMark_ne_nil).2 hopen
  rw [Pattern.ofChars]
  split
  · rfl
  · next hsome => exact absurd (hcut.symm.trans hsome) (Option.some_ne_none _).symm

theorem ofChars_span {text before behind body rest : List Char}
    (hopen : Text.CutFirst openMark text before behind)
    (hclose : Text.CutFirst closeMark behind body rest) :
    Pattern.ofChars text = .span before body (.ofChars rest) := by
  have hcut := (Text.cut?_eq_some_iff openMark_ne_nil).2 hopen
  have hcut' := (Text.cut?_eq_some_iff closeMark_ne_nil).2 hclose
  rw [Pattern.ofChars]
  split
  · next hnone => exact absurd (hcut.symm.trans hnone) (Option.some_ne_none _)
  · next before' behind' hsome =>
    obtain ⟨rfl, rfl⟩ := Prod.mk.inj (Option.some.inj (hcut.symm.trans hsome))
    split
    · next hnone => exact absurd (hcut'.symm.trans hnone) (Option.some_ne_none _)
    · next body' rest' hsome' =>
      obtain ⟨rfl, rfl⟩ := Prod.mk.inj (Option.some.inj (hcut'.symm.trans hsome'))
      rfl

/-- The spans of a pattern and the text behind them, if they are closed. -/
def Pattern.spans? : Pattern → Option (List Span × List Char)
  | .tail text => some ([], text)
  | .unclosed _ _ => none
  | .span before body rest => rest.spans?.map fun found => (⟨before, body⟩ :: found.1, found.2)

/-- **A text is split as it is taken apart.** -/
theorem split_iff {text last : List Char} {spans : List Span} :
    Split text spans last ↔ (Pattern.ofChars text).spans? = some (spans, last) := by
  constructor
  · intro h
    induction h with
    | done hopen =>
      rw [ofChars_done hopen]
      rfl
    | span hopen hclose hrest ih =>
      rw [ofChars_span hopen hclose, Pattern.spans?, ih]
      rfl
  · intro h
    fun_induction Pattern.ofChars text generalizing spans last with
    | case1 text hopen =>
      obtain ⟨rfl, rfl⟩ := Prod.mk.inj (Option.some.inj h)
      exact .done ((Text.cut?_eq_none_iff openMark_ne_nil).1 hopen)
    | case2 text before behind hopen hclose => cases h
    | case3 text before behind hopen body rest hclose ih =>
      obtain ⟨found, hfound, heq⟩ := Option.map_eq_some_iff.1 h
      obtain ⟨rfl, rfl⟩ := Prod.mk.inj heq
      exact .span ((Text.cut?_eq_some_iff openMark_ne_nil).1 hopen)
        ((Text.cut?_eq_some_iff closeMark_ne_nil).1 hclose) (ih hfound)

/-! ## §3. The limit -/

/-- **Texts that have been put together are refused by the peak of the spans that are left**, and
    are continued by every choice from them otherwise. -/
theorem expandFrom_eq {input : String} {s last : List Char} {spans : List Span}
    {options : List (List String)} {starts : List String} (hsplit : Split s spans last)
    (hoptions : spans.mapM (fun span => expandSpan span.body) = .ok options)
    (hstarts : starts.length ≤ maxExpansion) :
    (Pattern.ofChars s).expandFrom input starts =
      if maxExpansion < starts.length * peak (options.map List.length) then
        .error (.tooLarge input)
      else .ok (starts.flatMap fun start =>
        (choices options).map fun chosen => start ++ filled spans chosen last) := by
  induction hsplit generalizing options starts with
  | done hopen =>
    obtain rfl : [] = options := Except.ok.inj hoptions
    rw [ofChars_done hopen, flatMap_filled_nil, List.map_nil, peak_nil, Nat.mul_one,
      if_neg (Nat.not_lt.2 hstarts)]
    rfl
  | @span text before behind body rest last spans hopen hclose hrest ih =>
    rw [List.mapM_cons] at hoptions
    obtain ⟨values, hvalues, hothers⟩ := bind_eq_ok_iff.1 hoptions
    obtain ⟨others, hmapM, hcons⟩ := bind_eq_ok_iff.1 hothers
    cases hcons
    rw [ofChars_span hopen hclose, Pattern.expandFrom, hvalues]
    show (if maxExpansion < starts.length * values.length then Except.error (.tooLarge input)
      else (Pattern.ofChars rest).expandFrom input (continued starts before values)) = _
    have hlength := length_continued starts values before
    by_cases hlarge : maxExpansion < starts.length * values.length
    · -- the spans that are left cannot bring the peak back under the limit
      have hvalue : values.length ≠ 0 := by
        intro hzero
        rw [hzero, Nat.mul_zero] at hlarge
        exact Nat.not_lt_zero _ hlarge
      obtain ⟨n, hn⟩ := Nat.exists_eq_succ_of_ne_zero hvalue
      have hgrows : starts.length * values.length
          ≤ starts.length * peak ((values :: others).map List.length) := by
        rw [List.map_cons, hn, peak_succ]
        exact Nat.mul_le_mul_left _ (Nat.le_mul_of_pos_right _ (peak_pos _))
      rw [if_pos hlarge, if_pos (Nat.lt_of_lt_of_le hlarge hgrows)]
    · have hpeak : (maxExpansion < (continued starts before values).length
            * peak (others.map List.length))
          ↔ maxExpansion < starts.length * peak ((values :: others).map List.length) := by
        rw [hlength, List.map_cons]
        cases hvalue : values.length with
        | zero =>
          -- nothing is continued, and the peak lies in front of this span
          rw [peak_zero, Nat.mul_zero, Nat.zero_mul, Nat.mul_one]
          exact iff_of_false (Nat.not_lt_zero _) (Nat.not_lt.2 hstarts)
        | succ n => rw [peak_succ, Nat.mul_assoc]
      rw [if_neg hlarge, ih hmapM (by rw [hlength]; exact Nat.not_lt.1 hlarge),
        flatMap_continued starts values before body last spans others]
      simp only [hpeak]

/-- What a text stands for, if its spans are closed and can be expanded. -/
theorem expand_eq {input : String} {spans : List Span} {last : List Char}
    {options : List (List String)} (hsplit : Split input.toList spans last)
    (hoptions : spans.mapM (fun span => expandSpan span.body) = .ok options) :
    expand input =
      if maxExpansion < peak (options.map List.length) then .error (.tooLarge input)
      else .ok ((choices options).map fun chosen => filled spans chosen last) := by
  have hfrom : (Pattern.ofChars input.toList).expandFrom input [""] = _ :=
    expandFrom_eq hsplit hoptions (by decide)
  rw [List.length_singleton, Nat.one_mul, List.flatMap_singleton] at hfrom
  simp only [String.empty_append] at hfrom
  exact hfrom

theorem expand_eq_error_iff {input : String} {spans : List Span} {last : List Char}
    {options : List (List String)} (hsplit : Split input.toList spans last)
    (hoptions : spans.mapM (fun span => expandSpan span.body) = .ok options) :
    expand input = .error (.tooLarge input) ↔ maxExpansion < peak (options.map List.length) := by
  rw [expand_eq hsplit hoptions]
  by_cases hlarge : maxExpansion < peak (options.map List.length)
  · rw [if_pos hlarge]
    exact iff_of_true rfl hlarge
  · rw [if_neg hlarge]
    refine iff_of_false (fun h => ?_) hlarge
    cases h

/-- **Which texts are refused for having too many values.**  If the spans of a text are closed and
    can be expanded, it is refused exactly where the peak lies above the limit, and has its values
    otherwise.  It is refused for real excess, and always for that, unless the spans in front of
    an empty one alone exceed the limit.  Without an empty span it does not matter in which order
    the spans stand. -/
theorem tooLarge_iff_excess {input : String} {spans : List Span} {last : List Char}
    {options : List (List String)} (hsplit : Split input.toList spans last)
    (hoptions : spans.mapM (fun span => expandSpan span.body) = .ok options) :
    (expand input = .error (.tooLarge input)
        ↔ maxExpansion < peak (options.map List.length)) ∧
      (¬ maxExpansion < peak (options.map List.length) →
        expand input = .ok ((choices options).map fun chosen => filled spans chosen last)) ∧
      ((expand input = .error (.tooLarge input)
          ↔ maxExpansion < (options.map List.length).prod)
        ↔ (0 ∈ options.map List.length → peak (options.map List.length) ≤ maxExpansion)) ∧
      ∀ (other : String) (spans' : List Span) (last' : List Char) (options' : List (List String)),
        Split other.toList spans' last' →
        spans'.mapM (fun span => expandSpan span.body) = .ok options' →
        (options'.map List.length).Perm (options.map List.length) →
        0 ∉ options.map List.length →
        (expand other = .error (.tooLarge other) ↔ expand input = .error (.tooLarge input)) := by
  have hrefused := expand_eq_error_iff hsplit hoptions
  refine ⟨hrefused, fun hlow => ?_, ?_, ?_⟩
  · rw [expand_eq hsplit hoptions, if_neg hlow]
  · rw [hrefused]
    exact reports_excess_iff maxExpansion _
  · intro other spans' last' options' hsplit' hoptions' hperm hzero
    have hzero' : 0 ∉ options'.map List.length := fun hmem => hzero (hperm.mem_iff.1 hmem)
    rw [hrefused, expand_eq_error_iff hsplit' hoptions', peak_of_not_mem hzero,
      peak_of_not_mem hzero', hperm.prod_eq]

/-- Two spans that exceed the limit together, in either order. -/
theorem tooLarge_iff_excess_shades :
    Split "$[[1..400]]/$[[1..300]]".toList [⟨[], "1..400".toList⟩, ⟨['/'], "1..300".toList⟩] [] ∧
      maxExpansion < [400, 300].prod ∧
      expand "$[[1..400]]/$[[1..300]]" = .error (.tooLarge "$[[1..400]]/$[[1..300]]") ∧
      expand "$[[1..300]]/$[[1..400]]" = .error (.tooLarge "$[[1..300]]/$[[1..400]]") := by
  have hsplit : Split "$[[1..400]]/$[[1..300]]".toList
      [⟨[], "1..400".toList⟩, ⟨['/'], "1..300".toList⟩] [] :=
    split_iff.2 (by decide +kernel)
  have hsplit' : Split "$[[1..300]]/$[[1..400]]".toList
      [⟨[], "1..300".toList⟩, ⟨['/'], "1..400".toList⟩] [] :=
    split_iff.2 (by decide +kernel)
  obtain ⟨options, hoptions, hsizes⟩ : ∃ options,
      [Span.mk [] "1..400".toList, ⟨['/'], "1..300".toList⟩].mapM
        (fun span => expandSpan span.body) = .ok options ∧ options.map List.length = [400, 300] :=
    map_eq_ok_iff.1 (eq_ok_of_toOption (by decide +kernel))
  obtain ⟨options', hoptions', hsizes'⟩ : ∃ options,
      [Span.mk [] "1..300".toList, ⟨['/'], "1..400".toList⟩].mapM
        (fun span => expandSpan span.body) = .ok options ∧ options.map List.length = [300, 400] :=
    map_eq_ok_iff.1 (eq_ok_of_toOption (by decide +kernel))
  obtain ⟨hrefused, -, -, horder⟩ := tooLarge_iff_excess hsplit hoptions
  have hexcess : maxExpansion < peak (options.map List.length) := by
    rw [hsizes]
    decide
  have hsame := horder _ _ _ options' hsplit' hoptions' (by rw [hsizes, hsizes']; decide)
    (by rw [hsizes]; decide)
  exact ⟨hsplit, by decide, hrefused.2 hexcess, hsame.2 (hrefused.2 hexcess)⟩

/-- An empty span behind others that have too many values. -/
def shadesOfNothing : String := "$[[1..400]]$[[1..300]]$[[]]"

/-- **A text without values is refused for having too many.**  Its spans are closed and can be
    expanded, to 400, 300 and no values; with the empty span in front the text is accepted. -/
theorem refused_without_values :
    (∃ spans last options, Split shadesOfNothing.toList spans last ∧
      spans.mapM (fun span => expandSpan span.body) = .ok options ∧
      options.map List.length = [400, 300, 0] ∧
      ¬ maxExpansion < (options.map List.length).prod) ∧
    expand shadesOfNothing = .error (.tooLarge shadesOfNothing) ∧
    expand "$[[]]$[[1..400]]$[[1..300]]" = .ok [] := by
  have hsplit : Split shadesOfNothing.toList
      [⟨[], "1..400".toList⟩, ⟨[], "1..300".toList⟩, ⟨[], []⟩] [] :=
    split_iff.2 (by decide +kernel)
  obtain ⟨options, hoptions, hsizes⟩ : ∃ options,
      [Span.mk [] "1..400".toList, ⟨[], "1..300".toList⟩, ⟨[], []⟩].mapM
        (fun span => expandSpan span.body) = .ok options ∧
      options.map List.length = [400, 300, 0] :=
    map_eq_ok_iff.1 (eq_ok_of_toOption (by decide +kernel))
  refine ⟨⟨_, _, options, hsplit, hoptions, hsizes, by rw [hsizes]; decide⟩, ?_, ?_⟩
  · exact eq_error_of_fault? (by decide +kernel)
  · exact eq_ok_of_toOption (by decide +kernel)

end DesignTokens.Range
