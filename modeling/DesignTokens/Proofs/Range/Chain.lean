/-
  DesignTokens.Proofs.Range.Chain — the tour along a chain of checkpoints.

  A chain visits the indices of its checkpoints one after the other, going straight from each to
  the next in steps of one.  The names that it gives are read back as the indices of this tour.

  The name of a joint is spelled twice, as the last of one pair and as the first of the next.
  Both times it is the name of the joint alone, which is why a chain may drop the second.

  Main facts:
    * `tour_of_expandChain` — the names of a chain are read back as its tour.
    * `joint_of_expandPair` — both pairs of a joint give it the same name.
    * `chain_tours` — the names of a chain.
-/
import DesignTokens.Proofs.Range.Pair
import Mathlib

namespace DesignTokens.Range

/-! ## §1. Tours -/

/-- The indices on the way from one index to another in steps of one, without the first. -/
def leg (first last : Int) : List Int :=
  (List.range (last - first).natAbs).map fun (n : Nat) =>
    first + (last - first).sign * ((n : Int) + 1)

/-- The indices behind the first on a tour that goes straight from stop to stop. -/
def tour : Int → List Int → List Int
  | _, [] => []
  | here, stop :: rest => leg here stop ++ tour stop rest

theorem walk_eq_cons_leg (first last : Int) : walk first last = first :: leg first last := by
  unfold walk leg
  rw [List.range_succ_eq_map, List.map_cons, List.map_map]
  congr 1
  · split <;> simp
  · apply List.map_congr_left
    intro n hn
    have hlt : n < (last - first).natAbs := List.mem_range.1 hn
    show (if first ≤ last then first + ((n + 1 : Nat) : Int) else first - ((n + 1 : Nat) : Int)) = _
    split
    · have hsign : (last - first).sign = 1 := Int.sign_eq_one_of_pos (by omega)
      rw [hsign]
      omega
    · have hsign : (last - first).sign = -1 := Int.sign_eq_neg_one_of_neg (by omega)
      rw [hsign]
      omega

theorem length_tour (here : Int) (stops : List Int) :
    (tour here stops).length = (((here :: stops).zip stops).map fun (a, b) => (b - a).natAbs).sum := by
  induction stops generalizing here with
  | nil => rfl
  | cons stop rest ih =>
    rw [tour, List.length_append, ih, List.zip_cons_cons, List.map_cons, List.sum_cons]
    simp [leg]

/-- A walk takes steps of one. -/
theorem isChain_walk (first last : Int) :
    (walk first last).IsChain fun i j => (j - i).natAbs = 1 := by
  unfold walk
  rw [List.isChain_map, List.isChain_range]
  intro n _
  split <;> omega

/-- A tour takes steps of one. -/
theorem isChain_tour (here : Int) (stops : List Int) :
    (here :: tour here stops).IsChain fun i j => (j - i).natAbs = 1 := by
  induction stops generalizing here with
  | nil => exact List.isChain_singleton here
  | cons stop rest ih =>
    have hlast : stop ∈ (walk here stop).getLast? := getLast?_walk here stop
    -- the way to the stop ends with it, and the rest of the tour starts from there
    rw [tour, ← List.cons_append, ← walk_eq_cons_leg]
    refine List.isChain_append.2 ⟨isChain_walk here stop, (List.isChain_cons.1 (ih stop)).2, ?_⟩
    intro i hi j hj
    obtain rfl : i = stop := Option.mem_unique hi hlast
    exact (List.isChain_cons.1 (ih i)).1 j hj

/-! ## §2. Pairs -/

/-- The names of a pair are read back as the walk between its ends, and at each end stands the
    name of that end. -/
theorem tour_of_expandPair {first last : String} {names : List String}
    (h : expandPair first last = .ok names) :
    ∃ a b, classify first.toList = some a ∧ classify last.toList = some b ∧
      names.mapM indexOf = some (a.index :: leg a.index b.index) ∧
      names.head? = ownName a ∧ names.getLast? = ownName b := by
  obtain ⟨a, b, ha, hb, hab, -, hnames⟩ := expandPair_eq_ok_iff.1 h
  have hpa : a.Proper := proper_of_classify ha
  have hpb : b.Proper := proper_of_classify hb
  refine ⟨a, b, ha, hb, ?_, ?_, ?_⟩
  · rw [← walk_eq_cons_leg]
    exact mapM_eq_some_of_mapM
      (fun index hindex name hname => indexOf_of_spell hpa hpb hab hindex hname) hnames
  · rw [head?_of_mapM hnames, head?_walk, Option.bind_some, spell_spellings_first hpa hpb hab]
  · rw [getLast?_of_mapM hnames, getLast?_walk, Option.bind_some,
      spell_spellings_last hpa hpb hab]

/-! ## §3. Chains -/

/-- The texts of the checkpoints of a chain. -/
def chainTexts (item : List Char) : List String :=
  (Text.cutAll chainMark item).map fun c => String.ofList (Text.trim c)

/-- An item with a chain mark has a pair at least. -/
theorem chainTexts_of_occursIn {item : List Char} (h : Text.occursIn chainMark item = true) :
    ∃ first next rest, chainTexts item = first :: next :: rest := by
  obtain ⟨⟨before, after⟩, hcut⟩ := Option.isSome_iff_exists.1 h
  have hlt : after.length < item.length := Text.length_of_cut? (by decide) hcut
  obtain ⟨next, rest, hafter⟩ := List.exists_cons_of_ne_nil (Text.cutAll_ne_nil chainMark after)
  have hcuts : Text.cutAll chainMark item = before :: next :: rest := by
    rw [Text.cutAll, hcut]
    dsimp only
    rw [if_pos hlt, hafter]
  exact ⟨_, _, _, congrArg (List.map fun c => String.ofList (Text.trim c)) hcuts⟩

theorem expandItem_of_occursIn {item : List Char} (h : Text.occursIn chainMark item = true) :
    expandItem item = expandChain (chainTexts item) := by
  unfold expandItem
  rw [if_pos h]
  rfl

theorem expandChain_cons_cons_eq_ok_iff {first next : String} {rest out : List String} :
    expandChain (first :: next :: rest) = .ok out ↔
      ∃ names others, expandPair first next = .ok names ∧
        expandChain (next :: rest) = .ok others ∧ names ++ others.tail = out := by
  rw [expandChain, bind_eq_ok_iff]
  refine exists_congr fun names => ?_
  rw [bind_eq_ok_iff]
  simp [pure, Except.pure]

/-- The names of a chain are read back as its tour. -/
theorem tour_of_expandChain {first next : String} {rest out : List String}
    (h : expandChain (first :: next :: rest) = .ok out) :
    ∃ a stops, classify first.toList = some a ∧
      (next :: rest).mapM (fun text => classify text.toList) = some stops ∧
      out.mapM indexOf = some (a.index :: tour a.index (stops.map (·.index))) := by
  induction rest generalizing first next out with
  | nil =>
    obtain ⟨names, others, hpair, hothers, rfl⟩ := expandChain_cons_cons_eq_ok_iff.1 h
    obtain ⟨a, b, ha, hb, hnames, -, -⟩ := tour_of_expandPair hpair
    cases hothers
    refine ⟨a, [b], ha, ?_, ?_⟩
    · exact mapM_cons_eq_some_iff.2 ⟨b, [], hb, rfl, rfl⟩
    · rw [List.tail_nil, List.append_nil, hnames, List.map_singleton, tour, tour,
        List.append_nil]
  | cons third rest ih =>
    obtain ⟨names, others, hpair, hothers, rfl⟩ := expandChain_cons_cons_eq_ok_iff.1 h
    obtain ⟨a, b, ha, hb, hnames, -, -⟩ := tour_of_expandPair hpair
    obtain ⟨b', stops, hb', hstops, htour⟩ := ih hothers
    obtain rfl : b = b' := Option.some.inj (hb.symm.trans hb')
    refine ⟨a, b :: stops, ha, ?_, ?_⟩
    · exact mapM_cons_eq_some_iff.2 ⟨b, stops, hb, hstops, rfl⟩
    · -- the second walk starts where the first one ends, and its first name is dropped
      rw [List.mapM_append, hnames, tail_of_mapM htour, List.map_cons, tour]
      rfl

/-- Every pair of a chain that expands does so itself. -/
theorem expandPair_of_infix {texts out : List String} (h : expandChain texts = .ok out)
    {first last : String} (hpair : [first, last] <:+: texts) :
    ∃ names, expandPair first last = .ok names := by
  induction texts generalizing out with
  | nil => exact absurd (List.infix_nil.1 hpair) (List.cons_ne_nil _ _)
  | cons text texts ih =>
    cases texts with
    | nil =>
      have hle := hpair.length_le
      simp at hle
    | cons next rest =>
      obtain ⟨names, others, hnames, hothers, -⟩ := expandChain_cons_cons_eq_ok_iff.1 h
      rcases List.infix_cons_iff.1 hpair with hfront | hinside
      · obtain ⟨rfl, hrest⟩ := List.cons_prefix_cons.1 hfront
        obtain ⟨rfl, -⟩ := List.cons_prefix_cons.1 hrest
        exact ⟨names, hnames⟩
      · exact ih hothers hinside

/-- **Both pairs of a joint give it the same name.** -/
theorem joint_of_expandPair {first joint last : String} {names others : List String}
    (hnames : expandPair first joint = .ok names) (hothers : expandPair joint last = .ok others) :
    ∃ name, names.getLast? = some name ∧ others.head? = some name := by
  obtain ⟨a, b, -, hb, hindices, -, hlast⟩ := tour_of_expandPair hnames
  obtain ⟨b', c, hb', -, -, hfirst, -⟩ := tour_of_expandPair hothers
  obtain rfl : b = b' := Option.some.inj (hb.symm.trans hb')
  -- a pair has the name of its first end at least
  obtain ⟨name, hname⟩ : ∃ name, names.getLast? = some name := by
    cases hlist : names.getLast? with
    | some name => exact ⟨name, rfl⟩
    | none =>
      rw [List.getLast?_eq_none_iff.1 hlist, List.mapM_nil] at hindices
      cases hindices
  exact ⟨name, hname, by rw [hfirst, ← hlast, hname]⟩

/-- **The names of a chain.**  They are checkpoints, and they are read back as the tour that
    starts at the first checkpoint of the chain and goes straight from each to the next in steps
    of one.  A joint is visited once: the name that is dropped in front of its second pair is the
    one that stays behind its first. -/
theorem chain_tours {item : List Char} {out : List String}
    (hchain : Text.occursIn chainMark item = true) (h : expandItem item = .ok out) :
    ∃ first stops, stops ≠ [] ∧
      (chainTexts item).mapM (fun text => classify text.toList) = some (first :: stops) ∧
      (∀ name ∈ out, (classify name.toList).isSome = true) ∧
      out.mapM indexOf = some (first.index :: tour first.index (stops.map (·.index))) ∧
      ((first.index :: tour first.index (stops.map (·.index))).IsChain
        fun i j => (j - i).natAbs = 1) ∧
      out.length = 1 +
        (((first :: stops).zip stops).map fun (a, b) => (b.index - a.index).natAbs).sum ∧
      ∀ a b c, [a, b, c] <:+: chainTexts item →
        ∃ names others joint, expandPair a b = .ok names ∧ expandPair b c = .ok others ∧
          names.getLast? = some joint ∧ others.head? = some joint := by
  rw [expandItem_of_occursIn hchain] at h
  obtain ⟨text, next, rest, htexts⟩ := chainTexts_of_occursIn hchain
  rw [htexts] at h ⊢
  obtain ⟨first, stops, hfirst, hstops, htour⟩ := tour_of_expandChain h
  refine ⟨first, stops, ?_, ?_, ?_, htour, isChain_tour _ _, ?_, ?_⟩
  · rintro rfl
    exact absurd (length_of_mapM hstops) (by simp)
  · exact mapM_cons_eq_some_iff.2 ⟨first, stops, hfirst, hstops, rfl⟩
  · intro name hname
    have hindex : (indexOf name).isSome = true := isSome_of_mem_of_mapM htour hname
    unfold indexOf at hindex
    rwa [Option.isSome_map] at hindex
  · rw [← length_of_mapM htour, List.length_cons, length_tour, ← List.map_cons, List.zip_map,
      List.map_map, Nat.add_comm]
    rfl
  · intro a b c hjoint
    have hleft : [a, b] <:+: [a, b, c] := ⟨[], [c], rfl⟩
    have hright : [b, c] <:+: [a, b, c] := ⟨[a], [], rfl⟩
    obtain ⟨names, hnames⟩ := expandPair_of_infix h (hleft.trans hjoint)
    obtain ⟨others, hothers⟩ := expandPair_of_infix h (hright.trans hjoint)
    obtain ⟨joint, hkept, hdropped⟩ := joint_of_expandPair hnames hothers
    exact ⟨names, others, joint, hnames, hothers, hkept, hdropped⟩

/-- From a single `x` up to a counted tier, and back down across the middle. -/
def sizesUpAndDown : List Char := "xl .. 3xl .. s".toList

/-- The tiers are spelled by three families, and the two pairs ask different ones. -/
theorem chain_tours_sizes :
    Text.occursIn chainMark sizesUpAndDown = true ∧
      expandItem sizesUpAndDown = .ok ["xl", "2xl", "3xl", "2xl", "xl", "l", "m", "s"] ∧
      (∃ first stops,
        (chainTexts sizesUpAndDown).mapM (fun text => classify text.toList)
            = some (first :: stops) ∧
          ["xl", "2xl", "3xl", "2xl", "xl", "l", "m", "s"].mapM indexOf
            = some (first.index :: tour first.index (stops.map (·.index)))) ∧
      ∃ names others joint, expandPair "xl" "3xl" = .ok names ∧
        expandPair "3xl" "s" = .ok others ∧
        names.getLast? = some joint ∧ others.head? = some joint := by
  have hchain : Text.occursIn chainMark sizesUpAndDown = true := by decide +kernel
  have hitem : expandItem sizesUpAndDown
      = .ok ["xl", "2xl", "3xl", "2xl", "xl", "l", "m", "s"] :=
    eq_ok_of_toOption (by decide +kernel)
  have htexts : chainTexts sizesUpAndDown = ["xl", "3xl", "s"] := by decide +kernel
  have hjoint : ["xl", "3xl", "s"] <:+: chainTexts sizesUpAndDown := htexts ▸ List.infix_rfl
  obtain ⟨first, stops, -, hstops, -, hnames, -, -, hjoints⟩ := chain_tours hchain hitem
  exact ⟨hchain, hitem, ⟨first, stops, hstops, hnames⟩, hjoints "xl" "3xl" "s" hjoint⟩

end DesignTokens.Range
