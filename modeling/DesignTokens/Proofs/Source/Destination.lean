/-
  DesignTokens.Proofs.Source.Destination — where a path leads.

  The pieces of a path are followed one by one.  A name leads one level down, and a step up takes
  the last name back.  Where no name is left to take back, a step up stays at the root of an
  absolute path, and leads one level above the start of a relative one.  So a path leads a number
  of levels up, and from there down by names.

  A folded path has to say the same with its steps.  Folding keeps the steps up that are still to
  be made in the list that it takes names from, and the next step up takes one of them away as if
  it were a name.  Two levels up then cancel: what is left of the levels is whether their number
  is odd, while the names are always the right ones.

  Main facts:
    * `folds_foldl` — what folding has in its hands after some steps, and where these lead.
    * `parse_text_of_proper` — the text of a path reads back as the path.
    * `normalize_keeps_names` — where the text of a folded path leads.
-/
import DesignTokens.Proofs.Source.Root

namespace DesignTokens

/-! ## §1. Destinations -/

/-- Where a path leads: some levels above its start, and from there down by names, of which the
    last one comes first. -/
structure Destination where
  absolute : Bool
  levels : Nat
  names : List String
deriving Repr, DecidableEq

namespace Destination

/-- The destination one step up. -/
def climb (d : Destination) : Destination :=
  match d.names with
  | _ :: rest => { d with names := rest }
  | [] => if d.absolute then d else { d with levels := d.levels + 1 }

/-- The destination one step down. -/
def descend (d : Destination) (name : String) : Destination := { d with names := name :: d.names }

/-- The destination behind one more piece of a path. -/
def enter (d : Destination) (piece : String) : Destination :=
  if piece = "" ∨ piece = "." then d
  else if piece = ".." then d.climb
  else d.descend piece

/-- Where a path starts. -/
def start (absolute : Bool) : Destination := ⟨absolute, 0, []⟩

/-- Where the path with a text leads. -/
def ofText (text : String) : Destination :=
  (Text.splitString '/' text).foldl enter (start (text.toList.head? = some '/'))

/-- The destination behind one more step of a path. -/
def follow (d : Destination) : PathStep → Destination
  | .up => d.climb
  | .name text => d.descend text

end Destination

/-- Where the steps of a path lead. -/
def DocPath.destination (p : DocPath) : Destination :=
  p.steps.foldl Destination.follow (.start p.absolute)

namespace Destination

/-- A piece that stands for no step leads nowhere else. -/
theorem foldl_enter (pieces : List String) (d : Destination) :
    pieces.foldl enter d = (pieces.filterMap PathStep.ofPiece?).foldl follow d := by
  induction pieces generalizing d with
  | nil => rfl
  | cons piece rest ih =>
    rw [List.foldl_cons, ih]
    unfold enter PathStep.ofPiece?
    by_cases hblank : piece = "" ∨ piece = "."
    · rw [if_pos hblank, List.filterMap_cons_none (by rw [if_pos hblank])]
    · by_cases hdots : piece = ".."
      · rw [if_neg hblank, if_pos hdots,
          List.filterMap_cons_some (b := .up) (by rw [if_neg hblank, if_pos hdots])]
        rfl
      · rw [if_neg hblank, if_neg hdots,
          List.filterMap_cons_some (b := .name piece) (by rw [if_neg hblank, if_neg hdots])]
        rfl

/-- Where a text leads the steps of its path lead. -/
theorem ofText_eq (text : String) : ofText text = (DocPath.parse text).destination :=
  foldl_enter _ _

/-- Steps up lead as many levels above a start, and nowhere from a root. -/
theorem foldl_up (absolute : Bool) (levels ups : Nat) :
    (List.replicate ups PathStep.up).foldl follow ⟨absolute, levels, []⟩
      = ⟨absolute, if absolute then levels else levels + ups, []⟩ := by
  induction ups generalizing levels with
  | zero =>
    cases absolute with
    | true => rfl
    | false => rfl
  | succ ups ih =>
    rw [List.replicate_succ, List.foldl_cons]
    cases absolute with
    | true => exact ih levels
    | false =>
      show (List.replicate ups PathStep.up).foldl follow ⟨false, levels + 1, []⟩ = _
      rw [ih]
      show Destination.mk false (levels + 1 + ups) [] = ⟨false, levels + (ups + 1), []⟩
      rw [Nat.add_assoc, Nat.add_comm 1]

theorem foldl_descend (d : Destination) (names : List String) :
    (names.map PathStep.name).foldl follow d = { d with names := names.reverse ++ d.names } := by
  induction names generalizing d with
  | nil => rfl
  | cons name rest ih =>
    rw [List.map_cons, List.foldl_cons, ih]
    simp [follow, descend]

end Destination

/-! ## §2. Folding -/

/-- What folding has in its hands where a destination has been reached: the names that lead there,
    and under them at most one step up, which is there when the number of levels is odd.  At the
    root of an absolute path such a step means nothing. -/
def Folds (d : Destination) (folded : List PathStep) : Prop :=
  ∃ ups, folded = d.names.map PathStep.name ++ List.replicate ups .up ∧ ups ≤ 1 ∧
    (d.absolute = false → ups = d.levels % 2) ∧ (d.absolute = true → d.levels = 0)

theorem folds_start (absolute : Bool) : Folds (.start absolute) [] := by
  refine ⟨0, rfl, by omega, ?_, ?_⟩
  · intro _
    rfl
  · intro _
    rfl

/-- One more step keeps what is in hand in line with the destination. -/
theorem folds_fold {d : Destination} {folded : List PathStep} (h : Folds d folded)
    (step : PathStep) : Folds (d.follow step) (DocPath.fold folded step) := by
  obtain ⟨ups, hfolded, hle, hrelative, habsolute⟩ := h
  obtain ⟨absolute, levels, names⟩ := d
  subst hfolded
  cases step with
  | name text => exact ⟨ups, rfl, hle, hrelative, habsolute⟩
  | up =>
    cases names with
    | cons name rest => exact ⟨ups, rfl, hle, hrelative, habsolute⟩
    | nil =>
      -- no name is left, so the step up meets the one that is still to be made, or none
      have hflip : DocPath.fold (List.replicate ups .up) .up = List.replicate (1 - ups) .up := by
        rcases Nat.le_one_iff_eq_zero_or_eq_one.1 hle with hups | hups
        · subst hups
          rfl
        · subst hups
          rfl
      refine ⟨1 - ups, ?_, by omega, ?_, ?_⟩
      · show DocPath.fold (List.replicate ups .up) .up = _
        rw [hflip]
        cases absolute with
        | true => rfl
        | false => rfl
      · intro hfalse
        cases absolute with
        | true => cases hfalse
        | false =>
          have hups : ups = levels % 2 := hrelative rfl
          show 1 - ups = (levels + 1) % 2
          omega
      · intro htrue
        cases absolute with
        | true => exact habsolute rfl
        | false => cases htrue

/-- **What folding has in its hands after some steps**, and where these lead. -/
theorem folds_foldl (steps : List PathStep) {d : Destination} {folded : List PathStep}
    (h : Folds d folded) :
    Folds (steps.foldl Destination.follow d) (steps.foldl DocPath.fold folded) := by
  induction steps generalizing d folded with
  | nil => exact h
  | cons step rest ih => exact ih (folds_fold h step)

/-- The steps in hand lead to the destination, but for the levels that have cancelled. -/
theorem destination_of_folds {d : Destination} {folded : List PathStep} (h : Folds d folded) :
    (DocPath.mk d.absolute folded.reverse).destination = { d with levels := d.levels % 2 } := by
  obtain ⟨ups, hfolded, -, hrelative, habsolute⟩ := h
  obtain ⟨absolute, levels, names⟩ := d
  have hups : (List.replicate ups PathStep.up).foldl Destination.follow (.start absolute)
      = ⟨absolute, levels % 2, []⟩ := by
    rw [Destination.start, Destination.foldl_up]
    cases absolute with
    | true =>
      have hlevels : levels = 0 := habsolute rfl
      rw [hlevels]
      rfl
    | false =>
      have hodd : ups = levels % 2 := hrelative rfl
      rw [hodd, Nat.zero_add]
      rfl
  show folded.reverse.foldl Destination.follow (.start absolute) = _
  rw [hfolded, List.reverse_append, List.foldl_append, List.reverse_replicate, hups,
    ← List.map_reverse, Destination.foldl_descend]
  simp

/-! ## §3. Texts -/

/-- A step down is by a name. -/
def PathStep.Proper (step : PathStep) : Prop := ∀ name, step = .name name → IsName name

theorem proper_of_mem {p : DocPath} (h : p.Proper) : ∀ step ∈ p.steps, step.Proper := by
  intro step hmem name hname
  exact h name (hname ▸ hmem)

section Texts

variable {step : PathStep} {steps : List PathStep}

/-- The text of a step has a character, and no slash. -/
theorem text_of_proper (h : step.Proper) : step.text ≠ "" ∧ '/' ∉ step.text.toList := by
  cases step with
  | up => exact ⟨by decide, by decide⟩
  | name text => exact ⟨(h text rfl).ne_empty, (h text rfl).no_slash⟩

theorem ofPiece?_text (h : step.Proper) : PathStep.ofPiece? step.text = some step := by
  cases step with
  | up => rfl
  | name text =>
    have hname : IsName text := h text rfl
    show PathStep.ofPiece? text = some (.name text)
    unfold PathStep.ofPiece?
    rw [if_neg (not_or.2 ⟨hname.ne_empty, hname.ne_dot⟩), if_neg hname.ne_dots]

theorem filterMap_ofPiece?_text (h : ∀ step ∈ steps, step.Proper) :
    (steps.map PathStep.text).filterMap PathStep.ofPiece? = steps := by
  induction steps with
  | nil => rfl
  | cons step rest ih =>
    obtain ⟨hstep, hrest⟩ := List.forall_mem_cons.1 h
    rw [List.map_cons, List.filterMap_cons_some (ofPiece?_text hstep), ih hrest]

/-- The steps are read from their texts with slashes between them. -/
theorem filterMap_split_intercalate (h : ∀ step ∈ steps, step.Proper) :
    (Text.splitString '/' ("/".intercalate (steps.map PathStep.text))).filterMap PathStep.ofPiece?
      = steps := by
  cases steps with
  | nil => rfl
  | cons first rest =>
    have hslash : ∀ text ∈ (first :: rest).map PathStep.text, '/' ∉ text.toList := by
      intro text htext
      obtain ⟨step, hmem, heq⟩ := List.mem_map.1 htext
      rw [← heq]
      exact (text_of_proper (h step hmem)).2
    rw [Text.splitString_intercalate rfl (by simp) hslash, filterMap_ofPiece?_text h]

/-- The text of steps does not start with a slash. -/
theorem head?_intercalate_ne (h : ∀ step ∈ steps, step.Proper) :
    ("/".intercalate (steps.map PathStep.text)).toList.head? ≠ some '/' := by
  cases steps with
  | nil => simp
  | cons first rest =>
    obtain ⟨hne, hslash⟩ := text_of_proper (h first List.mem_cons_self)
    obtain ⟨c, chars, hchars⟩ : ∃ c chars, first.text.toList = c :: chars :=
      List.exists_cons_of_ne_nil fun hnil => hne (String.toList_eq_nil_iff.1 hnil)
    have hc : c ≠ '/' := by
      intro hc
      apply hslash
      rw [hchars, hc]
      exact List.mem_cons_self
    have hhead :
        ("/".intercalate (List.map PathStep.text (first :: rest))).toList.head? = some c := by
      rw [String.toList_intercalate]
      cases rest with
      | nil => simp [List.intercalate, hchars]
      | cons next rest => simp [List.intercalate, hchars]
    rw [hhead]
    simpa using hc

end Texts

namespace DocPath

/-- **The text of a path reads back as the path.** -/
theorem parse_text_of_proper {p : DocPath} (h : p.Proper) : parse p.text = p := by
  obtain ⟨absolute, steps⟩ := p
  have hsteps : ∀ step ∈ steps, step.Proper := proper_of_mem h
  unfold parse text
  cases absolute with
  | true =>
    -- the slash in front puts an empty piece before the others, which stands for no step
    have hpieces : ∀ s : String,
        Text.splitString '/' ("/" ++ s) = "" :: Text.splitString '/' s := by
      intro s
      unfold Text.splitString
      rw [String.toList_append]
      rfl
    simp only [if_true, hpieces]
    rw [List.filterMap_cons_none rfl, filterMap_split_intercalate hsteps, String.toList_append]
    rfl
  | false =>
    simp only [Bool.false_eq_true, if_false, String.empty_append]
    rw [filterMap_split_intercalate hsteps, decide_eq_false (head?_intercalate_ne hsteps)]

end DocPath

/-! ## §4. Folded paths -/

/-- Steps do not change whether the path is absolute. -/
theorem absolute_foldl (steps : List PathStep) (d : Destination) :
    (steps.foldl Destination.follow d).absolute = d.absolute := by
  induction steps generalizing d with
  | nil => rfl
  | cons step rest ih =>
    rw [List.foldl_cons, ih]
    cases step with
    | name text => rfl
    | up =>
      show d.climb.absolute = d.absolute
      unfold Destination.climb
      split
      · rfl
      · split
        · rfl
        · rfl

/-- The steps of a folded path lead down by the names of the path, and up by what is left of its
    levels. -/
theorem destination_normalize (p : DocPath) :
    p.normalize.destination = { p.destination with levels := p.destination.levels % 2 } := by
  have hfolds : Folds p.destination (p.steps.foldl DocPath.fold []) :=
    folds_foldl p.steps (folds_start p.absolute)
  rw [← destination_of_folds hfolds]
  show DocPath.destination ⟨p.absolute, _⟩ = _
  rw [show p.destination.absolute = p.absolute from absolute_foldl p.steps (.start p.absolute)]

/-- **Folding keeps the names and loses pairs of levels.**  The text of the folded path leads down
    by the same names.  Of the levels above its start only an odd one is left, so the place is
    the same exactly when there is at most one.  An absolute path never leads above its start,
    so it always keeps its place. -/
theorem normalize_keeps_names (text : String) :
    Destination.ofText (DocPath.parse text).normalize.text
        = { Destination.ofText text with levels := (Destination.ofText text).levels % 2 } ∧
      (Destination.ofText (DocPath.parse text).normalize.text = Destination.ofText text ↔
        (Destination.ofText text).levels ≤ 1) ∧
      ((Destination.ofText text).absolute = true → (Destination.ofText text).levels = 0) := by
  have hproper : (DocPath.parse text).normalize.Proper :=
    DocPath.proper_normalize (DocPath.proper_parse text)
  have hnormal : Destination.ofText (DocPath.parse text).normalize.text
      = { Destination.ofText text with levels := (Destination.ofText text).levels % 2 } := by
    rw [Destination.ofText_eq, DocPath.parse_text_of_proper hproper, Destination.ofText_eq,
      destination_normalize]
  obtain ⟨ups, -, -, -, habsolute⟩ :=
    folds_foldl (DocPath.parse text).steps (folds_start (DocPath.parse text).absolute)
  refine ⟨hnormal, ?_, ?_⟩
  · rw [hnormal]
    constructor
    · intro h
      have hlevels : (Destination.ofText text).levels % 2 = (Destination.ofText text).levels :=
        congrArg Destination.levels h
      omega
    · intro h
      have hlevels : (Destination.ofText text).levels % 2 = (Destination.ofText text).levels := by
        omega
      rw [hlevels]
  · rw [Destination.ofText_eq]
    exact habsolute

/-- Two levels above a name become none: `../../tokens` is folded to `tokens`. -/
theorem normalize_loses_levels :
    Destination.ofText (DocPath.parse "../../tokens").normalize.text
      ≠ Destination.ofText "../../tokens" := by
  decide +kernel

end DesignTokens
