/-
  DesignTokens.Proofs.Range.Pair — the names between two checkpoints.

  Every pair of checkpoints has its own list of families that spell the indices between its
  ends.  A name that such a list finds is read back as its index, since every family of the list
  can read all that lies between the ends.

  The name of an end does not depend on the other end: of all the families that a pair asks,
  only the family of the end itself and the single `x` have a name for it.

  Nor does it matter which end comes first.  Two families that are asked one after the other are
  the same, or they have names on different tiers; and where only one end is strict its family is
  asked first, from either side.

  Main facts:
    * `mem_walk_iff`, `reverse_walk` — what a walk visits, and the walk back.
    * `expandPair_of_classify` — what a pair of checkpoints comes to.
    * `expandPair_eq_ok_iff` — which pairs expand, and to what.
    * `spell_spellings_comm` — an index has one name in both directions.
    * `spell_spellings_first`, `spell_spellings_last` — the names of the ends.
    * `indexOf_of_spell` — the names between the ends are read back.
-/
import DesignTokens.Proofs.Outcome
import DesignTokens.Proofs.Range.Names
import DesignTokens.Range.Walk
import Mathlib.Tactic.ByContra

namespace DesignTokens.Range

/-! ## §1. Walks -/

@[simp] theorem head?_walk (first last : Int) : (walk first last).head? = some first := by
  unfold walk
  rw [List.range_succ_eq_map, List.map_cons, List.head?_cons]
  congr 1
  split <;> simp

/-- A walk visits the indices between its ends, and the ends. -/
theorem mem_walk_iff {first last index : Int} : index ∈ walk first last ↔
    (first ≤ index ∧ index ≤ last) ∨ (last ≤ index ∧ index ≤ first) := by
  constructor
  · intro h
    obtain ⟨n, hn, rfl⟩ := List.mem_map.1 h
    have hlt : n < (last - first).natAbs + 1 := List.mem_range.1 hn
    split <;> omega
  · intro h
    refine List.mem_map.2 ⟨(index - first).natAbs, List.mem_range.2 (by omega), ?_⟩
    split <;> omega

theorem getElem_walk {first last : Int} {n : Nat} (h : n < (walk first last).length) :
    (walk first last)[n] = if first ≤ last then first + (n : Int) else first - n := by
  simp only [walk, List.getElem_map, List.getElem_range]

/-- A walk back visits the same indices in the opposite order. -/
theorem reverse_walk (first last : Int) : (walk first last).reverse = walk last first := by
  apply List.ext_getElem
  · rw [List.length_reverse, length_walk, length_walk]
    omega
  · intro n hn _
    rw [List.length_reverse, length_walk] at hn
    rw [List.getElem_reverse, getElem_walk, getElem_walk, length_walk]
    split <;> split <;> omega

@[simp] theorem getLast?_walk (first last : Int) : (walk first last).getLast? = some last := by
  rw [← List.head?_reverse, reverse_walk, head?_walk]

/-! ## §2. The families of a pair -/

theorem spell_cons_of_none {family : Family} {index : Int} (h : family.render index = none)
    (families : List Family) : spell (family :: families) index = spell families index := by
  unfold spell
  rw [List.findSome?_cons, h]

theorem spell_serial (families : List Family) (index : Int) :
    spell (.serial :: families) index = some (toString index) :=
  congrArg some String.ofList_toList

/-- What comes first matters only where it has no name. -/
theorem spell_cons_congr (family : Family) {families others : List Family} {index : Int}
    (h : spell families index = spell others index) :
    spell (family :: families) index = spell (family :: others) index := by
  cases hname : family.render index with
  | none => rw [spell_cons_of_none hname, spell_cons_of_none hname, h]
  | some name =>
    unfold spell
    rw [List.findSome?_cons, List.findSome?_cons, hname]

/-- A family that is asked twice answers the same. -/
theorem spell_cons_cons_self (family : Family) (families : List Family) (index : Int) :
    spell (family :: family :: families) index = spell (family :: families) index := by
  cases hname : family.render index with
  | none => exact spell_cons_of_none hname _
  | some name =>
    unfold spell
    rw [List.findSome?_cons, List.findSome?_cons, hname]

/-- A family that has been asked before needs not be asked again at the end. -/
theorem spell_append_of_mem {family : Family} {families : List Family} (h : family ∈ families)
    (index : Int) : spell (families ++ [family]) index = spell families index := by
  induction families with
  | nil => cases h
  | cons first rest ih =>
    rcases List.mem_cons.1 h with rfl | hmem
    · cases hname : family.render index with
      | none =>
        rw [List.cons_append, spell_cons_of_none hname, spell_cons_of_none hname]
        unfold spell
        rw [List.findSome?_append, List.findSome?_cons, hname]
        simp
      | some name =>
        unfold spell
        rw [List.cons_append, List.findSome?_cons, List.findSome?_cons, hname]
    · rw [List.cons_append]
      exact spell_cons_congr first (ih hmem)

/-- Families that have no name in common can be asked in either order. -/
theorem spell_swap {family other : Family} {index : Int}
    (h : family.render index = none ∨ other.render index = none) (families : List Family) :
    spell (family :: other :: families) index = spell (other :: family :: families) index := by
  rcases h with h | h
  · rw [spell_cons_of_none h]
    exact (spell_cons_congr other (spell_cons_of_none h families)).symm
  · rw [spell_cons_of_none h]
    exact spell_cons_congr family (spell_cons_of_none h families)

/-- A family of a standard tier and one of an extra tier have no name in common. -/
theorem render_eq_none_or_of_standard {family other : Family}
    (hfamily : family.isStandard = true) (hother : other.isExtra = true) (index : Int) :
    family.render index = none ∨ other.render index = none := by
  by_cases hfar : 2 ≤ index.natAbs
  · exact Or.inl (render_eq_none_of_standard hfamily hfar)
  · exact Or.inr (render_eq_none_of_extra hother (by omega))

/-- The name of a checkpoint in its own family, or with a single `x`. -/
def ownName (c : Checkpoint) : Option String := spell [c.family, .extra] c.index

section Pair

variable {a b : Checkpoint}

/-- For sizes the single `x` is always asked last. -/
theorem spell_spellings (h : a.family ≠ .serial) (index : Int) :
    spell (spellings a b) index =
      if a.strict = false ∧ b.strict = true then spell [b.family, a.family, .extra] index
      else spell [a.family, b.family, .extra] index := by
  have hlast : ∀ ends : List Family,
      spell (if a.family = .serial ∨ .extra ∈ ends then ends else ends ++ [.extra]) index
        = spell (ends ++ [.extra]) index := by
    intro ends
    split
    · next hmem => exact (spell_append_of_mem (hmem.resolve_left h) index).symm
    · rfl
  unfold spellings
  dsimp only
  rw [hlast]
  by_cases hloose : a.strict = false ∧ b.strict = true
  · rw [if_pos hloose, if_pos (by simp [hloose])]
    rfl
  · rw [if_neg hloose, if_neg (by simpa using hloose)]
    rfl

/-- Integers share a range with integers alone. -/
theorem serial_of_continuous (ha : a.family = .serial) (hab : continuous a b = true) :
    b.family = .serial := by
  by_contra hne
  rcases families_of_continuous hab (by rw [ha]; exact Ne.symm hne) with h | h | h <;>
    exact absurd h.1 (by rw [ha]; decide)

/-- Sizes share a range with sizes alone. -/
theorem ne_serial_of_continuous (ha : a.family ≠ .serial) (hab : continuous a b = true) :
    b.family ≠ .serial :=
  fun hb => ha (serial_of_continuous hb ((continuous_comm b a).trans hab))

theorem spell_spellings_serial (ha : a.family = .serial) (index : Int) :
    spell (spellings a b) index = spell (if !a.strict && b.strict then [b.family, .serial]
      else [.serial, b.family]) index := by
  unfold spellings
  dsimp only
  rw [if_pos (Or.inl ha), ha]

/-- Where both ends are strict, or neither is, their families can be asked in either order. -/
theorem spell_ends_comm (ha : a.Proper) (hb : b.Proper) (hab : continuous a b = true)
    (hstrict : a.strict = b.strict) (index : Int) :
    spell [b.family, a.family, .extra] index = spell [a.family, b.family, .extra] index := by
  by_cases hsame : a.family = b.family
  · rw [hsame]
  · rcases families_of_continuous hab hsame with ⟨hstandard, hextra⟩ | ⟨hextra, hstandard⟩ |
      ⟨-, -, hloose⟩
    · exact (spell_swap (render_eq_none_or_of_standard hstandard hextra index) _).symm
    · exact spell_swap (render_eq_none_or_of_standard hstandard hextra index) _
    · -- two names that are not strict are both spelled with a single `x`
      have hfirst : a.strict = false := hloose.elim id hstrict.trans
      have hlast : b.strict = false := hstrict.symm.trans hfirst
      exact absurd ((bridge_of_not_strict ha hfirst).1.trans (bridge_of_not_strict hb hlast).1.symm)
        hsame

/-- **An index has one name in both directions.** -/
theorem spell_spellings_comm (ha : a.Proper) (hb : b.Proper) (hab : continuous a b = true)
    (index : Int) : spell (spellings b a) index = spell (spellings a b) index := by
  by_cases hserial : a.family = .serial
  · have hlast : b.family = .serial := serial_of_continuous hserial hab
    rw [spell_spellings_serial hserial, spell_spellings_serial hlast, hserial, hlast, ite_self,
      ite_self]
  · have hends := spell_ends_comm ha hb hab
    rw [spell_spellings hserial, spell_spellings (ne_serial_of_continuous hserial hab)]
    -- where only one end is strict its family is asked first, from either side
    cases hfirst : a.strict <;> cases hother : b.strict
    case false.false => simpa using hends (hfirst.trans hother.symm) index
    case true.true => simpa using hends (hfirst.trans hother.symm) index
    case false.true => simp
    case true.false => simp

/-- **The name of the first end** does not depend on the last. -/
theorem spell_spellings_first (ha : a.Proper) (hb : b.Proper) (hab : continuous a b = true) :
    spell (spellings a b) a.index = ownName a := by
  by_cases hserial : a.family = .serial
  · unfold ownName
    rw [spell_spellings_serial hserial, serial_of_continuous hserial hab, ite_self, hserial,
      spell_serial, spell_serial]
  · have hother : b.family ≠ a.family → (b.family = .extra → b.strict = true) →
        b.family.render a.index = none :=
      fun hne => render_eq_none_of_continuous hb ha ((continuous_comm b a).trans hab) hne
    rw [spell_spellings hserial]
    unfold ownName
    split
    · next hloose =>
      -- the single `x` itself, whichever family is asked before it
      obtain ⟨hfamily, -⟩ := bridge_of_not_strict ha hloose.1
      by_cases hne : b.family = a.family
      · rw [hne, spell_cons_cons_self]
      · rw [spell_cons_of_none (hother hne fun _ => hloose.2)]
    · by_cases hne : b.family = a.family
      · rw [hne, spell_cons_cons_self]
      · refine spell_cons_congr a.family ?_
        by_cases hextra : b.family = .extra
        · rw [hextra, spell_cons_cons_self]
        · rw [spell_cons_of_none (hother hne fun h => absurd h hextra)]

/-- **The name of the last end** does not depend on the first. -/
theorem spell_spellings_last (ha : a.Proper) (hb : b.Proper) (hab : continuous a b = true) :
    spell (spellings a b) b.index = ownName b := by
  rw [← spell_spellings_comm ha hb hab]
  exact spell_spellings_first hb ha ((continuous_comm b a).trans hab)

/-! ## §3. Names between two checkpoints -/

/-- What a family can read at two indices it can read between them. -/
theorem Family.holds_between {family : Family} {first last index : Int}
    (hfirst : family.Holds first) (hlast : family.Holds last)
    (h : (first ≤ index ∧ index ≤ last) ∨ (last ≤ index ∧ index ≤ first)) :
    family.Holds index := by
  cases family with
  | serial =>
    simp only [Family.Holds, holdsIndex, Bool.and_eq_true, decide_eq_true_eq] at hfirst hlast ⊢
    omega
  | numberExtra | extraNumber =>
    simp only [Family.Holds] at hfirst hlast ⊢
    omega
  | standardSingle | standardDouble | extra => trivial

theorem holds_first (ha : a.Proper) : a.family.Holds a.index := by
  obtain ⟨family, index, strict⟩ := a
  cases family with
  | serial => exact ha.2
  | numberExtra | extraNumber => exact ha.2.2
  | standardSingle | standardDouble | extra => trivial

/-- A family can read the other end of its range, too. -/
theorem holds_last (ha : a.Proper) (hb : b.Proper) (hab : continuous a b = true) :
    a.family.Holds b.index := by
  have hsmall : a.family ≠ .serial → b.index.natAbs ≤ 2 → a.family.Holds b.index := by
    intro hserial hle
    have hbound : b.index.natAbs < Nat.pow 2 63 := Nat.lt_of_le_of_lt hle (by decide)
    cases hfamily : a.family with
    | serial => exact absurd hfamily hserial
    | numberExtra | extraNumber => exact hbound
    | standardSingle | standardDouble | extra => trivial
  by_cases hne : a.family = b.family
  · rw [hne]
    exact holds_first hb
  · rcases families_of_continuous hab hne with ⟨hstandard, -⟩ | ⟨hextra, hstandard⟩ |
      ⟨hextra, -, hloose⟩
    · cases hfamily : a.family with
      | standardSingle | standardDouble => trivial
      | serial | extra | numberExtra | extraNumber => rw [hfamily] at hstandard; cases hstandard
    · -- the other end has a standard name, so it lies next to the middle
      have hle := natAbs_le_one_of_standard hb hstandard
      exact hsmall (by intro h; rw [h] at hextra; cases hextra) (by omega)
    · rcases hloose with hstrict | hstrict
      · rw [(bridge_of_not_strict ha hstrict).1]
        trivial
      · -- the other end is a single `x`
        have hindex := (bridge_of_not_strict hb hstrict).2
        exact hsmall (by intro h; rw [h] at hextra; cases hextra) (by omega)

theorem mem_spellings {family : Family} (h : family ∈ spellings a b) :
    family = a.family ∨ family = b.family ∨ family = .extra := by
  unfold spellings at h
  dsimp only at h
  split at h <;> split at h <;> simp at h <;> grind

/-- The index of a name, if it is a checkpoint. -/
def indexOf (name : String) : Option Int := (classify name.toList).map (·.index)

/-- **The names between two checkpoints are read back.** -/
theorem indexOf_of_spell (ha : a.Proper) (hb : b.Proper) (hab : continuous a b = true)
    {index : Int} (hindex : index ∈ walk a.index b.index) {name : String}
    (h : spell (spellings a b) index = some name) : indexOf name = some index := by
  -- some family of the list has written the name
  obtain ⟨text, htext, rfl⟩ := Option.map_eq_some_iff.1 h
  obtain ⟨family, hmem, hrender⟩ := List.exists_of_findSome?_eq_some htext
  have hbetween := mem_walk_iff.1 hindex
  have hba : continuous b a = true := (continuous_comm b a).trans hab
  have hholds : family.Holds index := by
    rcases mem_spellings hmem with rfl | rfl | rfl
    · exact Family.holds_between (holds_first ha) (holds_last ha hb hab) hbetween
    · exact Family.holds_between (holds_last hb ha hba) (holds_first hb) hbetween
    · trivial
  obtain ⟨c, hc, hvalue⟩ := classify_of_render hrender hholds
  unfold indexOf
  rw [String.toList_ofList, hc, Option.map_some, hvalue]

end Pair

/-! ## §4. What a pair comes to -/

section Outcome

variable {first last : String} {a b : Checkpoint}

theorem expandPair_of_not_first (h : classify first.toList = none) :
    expandPair first last = .error (.unclassified first last first) := by
  unfold expandPair
  rw [h]

theorem expandPair_of_not_last (ha : classify first.toList = some a)
    (h : classify last.toList = none) :
    expandPair first last = .error (.unclassified first last last) := by
  unfold expandPair
  rw [ha, h]

/-- **What a pair of checkpoints comes to.** -/
theorem expandPair_of_classify (ha : classify first.toList = some a)
    (hb : classify last.toList = some b) :
    expandPair first last =
      if continuous a b = false then .error (.discontinuity first last)
      else if maxExpansion ≤ (b.index - a.index).natAbs then
        .error (.tooLarge (first ++ ".." ++ last))
      else ((walk a.index b.index).mapM (spell (spellings a b))).elim
        (.error (.discontinuity first last)) .ok := by
  unfold expandPair
  rw [ha, hb]
  dsimp only
  cases continuous a b with
  | false => rfl
  | true =>
    rw [if_neg (show ¬ (!true) = true by decide), if_neg (show ¬ true = false by decide)]
    refine if_congr Iff.rfl rfl ?_
    cases (walk a.index b.index).mapM (spell (spellings a b)) with
    | none => rfl
    | some names => rfl

/-- **Which pairs expand**, and to what. -/
theorem expandPair_eq_ok_iff {names : List String} :
    expandPair first last = .ok names ↔
      ∃ a b, classify first.toList = some a ∧ classify last.toList = some b ∧
        continuous a b = true ∧ (b.index - a.index).natAbs < maxExpansion ∧
        (walk a.index b.index).mapM (spell (spellings a b)) = some names := by
  cases ha : classify first.toList with
  | none => simp [expandPair_of_not_first ha]
  | some a =>
    cases hb : classify last.toList with
    | none => simp [expandPair_of_not_last ha hb]
    | some b =>
      rw [expandPair_of_classify ha hb]
      cases hab : continuous a b with
      | false => simp [hab]
      | true =>
        by_cases hfar : maxExpansion ≤ (b.index - a.index).natAbs
        · simp [hfar, Nat.not_lt_of_le hfar]
        · cases hnames : (walk a.index b.index).mapM (spell (spellings a b)) <;>
            simp [hab, hfar, hnames, Nat.lt_of_not_le hfar]

end Outcome

end DesignTokens.Range
