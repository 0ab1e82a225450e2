/-
  DesignTokens.Proofs.Range.Rounds — pairs and chains in 64-bit numbers.

  The names between two checkpoints are found by a loop, which goes from one index to the next
  until it meets that of the last checkpoint.  The loop below is given a number of rounds and
  stops with a fault when it takes more.  It takes one round for each index that the walk
  visits, since each step brings it nearer to the end and none goes past it; so it never leaves
  the numbers between the two ends, however near to the bounds of 64 bits they lie.

  The distance of two indices may be no signed number, but it always is an unsigned one, and a
  pair whose distance is too large has no loop at all.

  Behind the first pair of a chain the joint is removed, which needs a value that can be
  removed.  A pair that expands has one at least.

  Main facts:
    * `stepLoop_eq` — the loop visits a walk, in as many rounds as the walk is long.
    * `expandPair64_eq` — a pair expands without a fault.
    * `expandChain64_eq` — so does a chain, and every joint is there to be removed.
-/
import DesignTokens.Proofs.Range.Pair
import DesignTokens.Proofs.Range.Words

namespace DesignTokens.Range

/-! ## §1. The loop -/

/-- `spell` in 64-bit numbers: the families are asked one after the other. -/
def spell64 : List Family → Int → Except Fault (Option String)
  | [], _ => .ok none
  | family :: rest, index => do
    match ← family.render64 index with
    | some name => return some (String.ofList name)
    | none => spell64 rest index

/-- Spells the indices from `index` on, step by step, until the last one: the names so far and
    those of the indices, or nothing if one of them has no name. -/
def stepLoop (families : List Family) (last step : Int) :
    (rounds : Nat) → (index : Int) → (names : List String) → Except Fault (Option (List String))
  | 0, _, _ => .error .rounds
  | rounds + 1, index, names => do
    match ← spell64 families index with
    | none => return none
    | some name =>
      if index = last then return some (names ++ [name])
      else
        let next ← signed64 (index + step)
        stepLoop families last step rounds next (names ++ [name])

theorem spell64_eq {index : Int} (h : holdsIndex index = true) (families : List Family) :
    spell64 families index = .ok (spell families index) := by
  induction families with
  | nil => rfl
  | cons family rest ih =>
    rw [spell64, render64_eq h, spell, List.findSome?_cons]
    cases family.render index with
    | some name => rfl
    | none => exact ih

theorem walk_self (index : Int) : walk index index = [index] := by
  simp [walk]

/-- A walk goes on one step nearer to its end. -/
theorem walk_eq_cons {first last step : Int} (hne : first ≠ last)
    (hstep : step = 1 ∧ first ≤ last ∨ step = -1 ∧ last ≤ first) :
    walk first last = first :: walk (first + step) last := by
  apply List.ext_getElem
  · rw [List.length_cons, length_walk, length_walk]
    omega
  · intro n hn _
    rw [length_walk] at hn
    rw [getElem_walk]
    cases n with
    | zero => split <;> simp
    | succ n =>
      rw [List.getElem_cons_succ, getElem_walk]
      split <;> split <;> omega

/-- **The loop visits a walk**, in as many rounds as the walk is long. -/
theorem stepLoop_eq {families : List Family} {last step : Int} (hlast : holdsIndex last = true)
    {rounds : Nat} {index : Int} (hindex : holdsIndex index = true)
    (hstep : step = 1 ∧ index ≤ last ∨ step = -1 ∧ last ≤ index)
    (hrounds : (last - index).natAbs < rounds) (names : List String) :
    stepLoop families last step rounds index names
      = .ok (((walk index last).mapM (spell families)).map (names ++ ·)) := by
  induction rounds generalizing index names with
  | zero => omega
  | succ rounds ih =>
    rw [stepLoop, spell64_eq hindex]
    by_cases hend : index = last
    · subst hend
      rw [walk_self, List.mapM_cons]
      cases spell families index with
      | none => rfl
      | some name =>
        show (if index = index then _ else _) = _
        rw [if_pos rfl]
        rfl
    · rw [walk_eq_cons hend hstep, List.mapM_cons]
      cases spell families index with
      | none => rfl
      | some name =>
        -- the next index lies between two numbers that fit
        have hnext : holdsIndex (index + step) = true := by
          have hbounds := holdsIndex_iff.1 hindex
          have hlastBounds := holdsIndex_iff.1 hlast
          exact holdsIndex_iff.2 (by omega)
        have hrest := ih hnext (by omega) (by omega) (names ++ [name])
        show (if index = last then _ else _) = _
        rw [if_neg hend, signed64_bind hnext, hrest]
        cases (walk (index + step) last).mapM (spell families) with
        | none => rfl
        | some rest =>
          show Except.ok (some ((names ++ [name]) ++ rest)) = .ok (some (names ++ (name :: rest)))
          rw [List.append_assoc]
          rfl

/-- The rounds are counted: in two rounds the loop does not get from `1` to `3`. -/
example : stepLoop [.serial] 3 1 2 1 [] = .error .rounds := by rfl

/-- And the numbers are tested: a step away from the end leaves them. -/
example : stepLoop [.serial] 0 1 3 9223372036854775807 [] = .error .overflow := by rfl

/-! ## §2. Pairs -/

/-- `expandPair` in 64-bit numbers, once both ends are checkpoints. -/
def expandBetween64 (rounds : Nat) (first last : String) (a b : Checkpoint) :
    Except Fault (Except RangeError (List String)) :=
  if !continuous a b then .ok (.error (.discontinuity first last))
  else do
    let distance ← unsigned64 (a.index - b.index).natAbs
    let limit ← unsigned64 maxExpansion
    if limit ≤ distance then return .error (.tooLarge (first ++ ".." ++ last))
    else
      -- room is made for the names before the loop starts
      let _ ← unsigned64 (distance + 1 : Nat)
      let step := if a.index ≤ b.index then 1 else -1
      match ← stepLoop (spellings a b) b.index step rounds a.index [] with
      | some names => return .ok names
      | none => return .error (.discontinuity first last)

/-- `expandPair` in 64-bit numbers, with a loop of so many rounds. -/
def expandPair64 (rounds : Nat) (first last : String) :
    Except Fault (Except RangeError (List String)) := do
  match ← classify64 first.toList with
  | none => return .error (.unclassified first last first)
  | some a =>
    match ← classify64 last.toList with
    | none => return .error (.unclassified first last last)
    | some b => expandBetween64 rounds first last a b

section Pair

variable {first last : String} {rounds : Nat}

/-- **The distance of two indices and all indices between them fit**, and the loop ends in as
    many rounds as the indices lie apart, and one more. -/
theorem expandBetween64_eq {a b : Checkpoint} (ha : classify first.toList = some a)
    (hb : classify last.toList = some b) (hfirst : holdsIndex a.index = true)
    (hlast : holdsIndex b.index = true)
    (hrounds : min ((a.index - b.index).natAbs + 1) maxExpansion ≤ rounds) :
    expandBetween64 rounds first last a b = .ok (expandPair first last) := by
  have haBounds := holdsIndex_iff.1 hfirst
  have hbBounds := holdsIndex_iff.1 hlast
  have hlimit : maxExpansion = 100000 := rfl
  have hdistance : (a.index - b.index).natAbs = (b.index - a.index).natAbs := by omega
  rw [expandPair_of_classify ha hb, expandBetween64]
  cases continuous a b with
  | false => rfl
  | true =>
    rw [if_neg (show ¬ (!true) = true by decide), if_neg (show ¬ true = false by decide),
      unsigned64_bind rfl (by omega), unsigned64_bind rfl (by omega), hdistance]
    by_cases hfar : maxExpansion ≤ (b.index - a.index).natAbs
    · rw [if_pos hfar, if_pos hfar]
      rfl
    · rw [if_neg hfar, if_neg hfar, unsigned64_bind rfl (by omega)]
      dsimp only
      rw [stepLoop_eq hlast hfirst (by split <;> omega) (by omega)]
      cases (walk a.index b.index).mapM (spell (spellings a b)) with
      | none => rfl
      | some names => rfl

/-- **A pair expands without a fault**, whatever its ends are. -/
theorem expandPair64_eq (hfirst : first.utf8ByteSize < Nat.pow 2 63)
    (hlast : last.utf8ByteSize < Nat.pow 2 63)
    (hrounds : ∀ a b, classify first.toList = some a → classify last.toList = some b →
      min ((a.index - b.index).natAbs + 1) maxExpansion ≤ rounds) :
    expandPair64 rounds first last = .ok (expandPair first last) := by
  rw [← byteLength_toList] at hfirst hlast
  rw [expandPair64, classify64_eq hfirst]
  cases ha : classify first.toList with
  | none => rw [expandPair_of_not_first ha]; rfl
  | some a =>
    show (classify64 last.toList >>= _) = _
    rw [classify64_eq hlast]
    cases hb : classify last.toList with
    | none => rw [expandPair_of_not_last ha hb]; rfl
    | some b =>
      exact expandBetween64_eq ha hb (holdsIndex_of_classify hfirst ha)
        (holdsIndex_of_classify hlast hb) (hrounds a b ha hb)

end Pair

/-! ## §3. Chains -/

/-- The values without the first. -/
def removeFirst : List String → Except Fault (List String)
  | [] => .error .empty
  | _ :: rest => .ok rest

/-- `expandChain` in 64-bit numbers, behind the names of the pairs so far: a pair that is not the
    first one loses the joint, its first name. -/
def expandChain64 (names : List String) :
    List String → Except Fault (Except RangeError (List String))
  | first :: next :: rest => do
    match ← expandPair64 maxExpansion first next with
    | .error e => return .error e
    | .ok found =>
      let others ← if names.isEmpty then .ok found else removeFirst found
      expandChain64 (names ++ others) (next :: rest)
  | _ => .ok (.ok names)

/-- `expandItem` in 64-bit numbers. -/
def expandItem64 (item : List Char) : Except Fault (Except RangeError (List String)) :=
  if Text.occursIn chainMark item then
    expandChain64 [] ((Text.cutAll chainMark item).map fun c => String.ofList (Text.trim c))
  else .ok (.ok [String.ofList item])

/-- A pair that expands has a name. -/
theorem ne_nil_of_expandPair {first last : String} {names : List String}
    (h : expandPair first last = .ok names) : names ≠ [] := by
  obtain ⟨a, b, -, -, hlength⟩ := length_of_expandPair h
  rintro rfl
  rw [List.length_nil] at hlength
  omega

/-- **A chain expands without a fault**: every joint is there to be removed. -/
theorem expandChain64_eq {checkpoints : List String}
    (h : ∀ name ∈ checkpoints, name.utf8ByteSize < Nat.pow 2 63) (names : List String) :
    expandChain64 names checkpoints
      = .ok ((expandChain checkpoints).map fun found =>
          if names.isEmpty then found else names ++ found.tail) := by
  induction checkpoints generalizing names with
  | nil => cases names <;> simp [expandChain64, expandChain, Except.map]
  | cons first tail ih =>
    cases tail with
    | nil => cases names <;> simp [expandChain64, expandChain, Except.map]
    | cons next rest =>
      have hfirst := h first List.mem_cons_self
      have hnext := h next (List.mem_cons_of_mem _ List.mem_cons_self)
      have hrest := ih fun name hname => h name (List.mem_cons_of_mem _ hname)
      rw [expandChain64, expandChain,
        expandPair64_eq hfirst hnext fun a b _ _ => Nat.min_le_right _ _]
      cases hfound : expandPair first next with
      | error e => rfl
      | ok found =>
        obtain ⟨joint, others, rfl⟩ := List.exists_cons_of_ne_nil (ne_nil_of_expandPair hfound)
        cases names with
        | nil =>
          show expandChain64 (joint :: others) (next :: rest) = _
          rw [hrest]
          cases expandChain (next :: rest) <;> rfl
        | cons name names =>
          -- the joint is the first of the names found, and the names so far end with it
          show expandChain64 (name :: names ++ others) (next :: rest) = _
          rw [hrest]
          cases expandChain (next :: rest) with
          | error e => rfl
          | ok following =>
            show Except.ok (Except.ok ((name :: names ++ others) ++ following.tail)) = _
            rw [List.append_assoc]
            rfl

/-! ## §4. Items -/

/-- The pieces between the marks of a text are in the text. -/
theorem infix_of_mem_intercalate {mark piece : List Char} {pieces : List (List Char)}
    (h : piece ∈ pieces) : piece <:+: mark.intercalate pieces := by
  have hmem : piece ∈ pieces.intersperse mark := by
    induction pieces with
    | nil => cases h
    | cons first rest ih =>
      cases rest with
      | nil => exact h
      | cons next rest =>
        rw [List.intersperse_cons_cons]
        rcases List.mem_cons.1 h with rfl | hrest
        · exact List.mem_cons_self
        · exact List.mem_cons_of_mem _ (List.mem_cons_of_mem _ (ih hrest))
  exact List.infix_of_mem_flatten hmem

theorem utf8ByteSize_le_of_mem_checkpoints {item : List Char} {name : String}
    (h : name ∈ (Text.cutAll chainMark item).map fun c => String.ofList (Text.trim c)) :
    name.utf8ByteSize ≤ byteLength item := by
  obtain ⟨piece, hpiece, rfl⟩ := List.mem_map.1 h
  obtain ⟨front, back, -, -, htrim⟩ := Text.exists_eq_blanks_trim piece
  have hpart : Text.trim piece <:+: piece := ⟨front, back, htrim.symm⟩
  have hitem : piece <:+: item := by
    rw [← Text.intercalate_cutAll chainMark item]
    exact infix_of_mem_intercalate hpiece
  rw [← byteLength_toList, String.toList_ofList]
  exact byteLength_le_of_infix (hpart.trans hitem)

/-- **An item expands without a fault.** -/
theorem expandItem64_eq {item : List Char} (hlength : byteLength item < Nat.pow 2 63) :
    expandItem64 item = .ok (expandItem item) := by
  unfold expandItem64 expandItem
  split
  · have hnames : ∀ name ∈ (Text.cutAll chainMark item).map fun c => String.ofList (Text.trim c),
        name.utf8ByteSize < Nat.pow 2 63 := fun name hname =>
      Nat.lt_of_le_of_lt (utf8ByteSize_le_of_mem_checkpoints hname) hlength
    rw [expandChain64_eq hnames []]
    exact congrArg Except.ok (congrFun Except.map_id _)
  · rfl

/-! ## §5. Safety -/

/-- **Ranges are safe in 64-bit numbers**, for names of fewer than `2^63` bytes.  Names are
    classified without a fault, and every index is a signed number; the next index of a counted
    tier is refused where it does not fit; an index has its names without a fault; and so do
    pairs and items expand.  The loop of a pair takes no more rounds than its ends lie apart,
    and one more, nor more than a text may expand to, and no joint is removed that is not
    there. -/
theorem arithmetic_safe :
    (∀ name : String, name.utf8ByteSize < Nat.pow 2 63 →
      classify64 name.toList = .ok (classify name.toList) ∧
        ∀ c, classify name.toList = some c → holdsIndex c.index = true) ∧
    (∀ (sign : Int) (n : Nat), sign = 1 ∨ sign = -1 →
      extraIndex64? sign n = extraIndex? sign n) ∧
    (∀ (family : Family) (index : Int), holdsIndex index = true →
      family.render64 index = .ok (family.render index)) ∧
    (∀ (first last : String) (rounds : Nat), first.utf8ByteSize < Nat.pow 2 63 →
      last.utf8ByteSize < Nat.pow 2 63 →
      (∀ a b, classify first.toList = some a → classify last.toList = some b →
        min ((a.index - b.index).natAbs + 1) maxExpansion ≤ rounds) →
      expandPair64 rounds first last = .ok (expandPair first last)) ∧
    (∀ item : String, item.utf8ByteSize < Nat.pow 2 63 →
      expandItem64 item.toList = .ok (expandItem item.toList)) := by
  refine ⟨fun name hname => ?_, fun sign n hsign => extraIndex64?_eq hsign n,
    fun family _ hindex => render64_eq hindex family,
    fun first last rounds hfirst hlast hrounds => expandPair64_eq hfirst hlast hrounds,
    fun item hitem => ?_⟩
  · rw [← byteLength_toList] at hname
    exact ⟨classify64_eq hname, fun c hc => holdsIndex_of_classify hname hc⟩
  · rw [← byteLength_toList] at hitem
    exact expandItem64_eq hitem

/-- The last three indices, in three rounds; the two ends of the scale, which lie too far apart
    for a signed number; and a chain through a tier with the greatest count. -/
theorem arithmetic_safe_limits :
    expandPair64 3 "9223372036854775805" "9223372036854775807"
      = .ok (.ok ["9223372036854775805", "9223372036854775806", "9223372036854775807"]) ∧
    expandPair64 100000 "-9223372036854775808" "9223372036854775807"
      = .ok (.error (.tooLarge "-9223372036854775808..9223372036854775807")) ∧
    expandItem64 "9223372036854775806xs..9223372036854775805xs..9223372036854775806xs".toList
      = .ok (.ok ["9223372036854775806xs", "9223372036854775805xs", "9223372036854775806xs"]) := by
  obtain ⟨-, -, -, hpair, hitem⟩ := arithmetic_safe
  refine ⟨?_, ?_, ?_⟩
  · have hfirst : classify "9223372036854775805".toList
        = some ⟨.serial, 9223372036854775805, true⟩ := by decide +kernel
    have hlast : classify "9223372036854775807".toList
        = some ⟨.serial, 9223372036854775807, true⟩ := by decide +kernel
    rw [hpair _ _ 3 (by decide +kernel) (by decide +kernel)]
    · exact congrArg Except.ok (eq_ok_of_toOption (by decide +kernel))
    · intro a b ha hb
      cases hfirst.symm.trans ha
      cases hlast.symm.trans hb
      decide
  · rw [hpair _ _ 100000 (by decide +kernel) (by decide +kernel) fun _ _ _ _ =>
      Nat.min_le_right _ _]
    exact congrArg Except.ok (eq_error_of_fault? (by decide +kernel))
  · rw [hitem _ (by decide +kernel)]
    exact congrArg Except.ok (eq_ok_of_toOption (by decide +kernel))

end DesignTokens.Range
