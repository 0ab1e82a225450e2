/-
  DesignTokens.Proofs.Range.Words — checkpoints and their names in 64-bit numbers.

  Indices, counts and lengths are integers here, and there is no greatest one.  A machine has
  64-bit numbers.  The functions below compute with those: every number that they come to is
  tested against its type, and a computation stops with a fault where one does not fit.  They
  come to what the functions without bounds come to, without a fault, as long as the lengths of
  names are signed 64-bit numbers.

  The three kinds of checkpoints get their indices in three ways.  A numeral and a count are read
  only if they fit, a counted tier is refused if the next index does not fit, and a run of `x`
  fits because the name that it stands in does.

  Main facts:
    * `classify64_eq` — names are classified without a fault.
    * `holdsIndex_of_classify` — every index is a signed 64-bit number.
    * `render64_eq` — and has its names without a fault.
-/
import DesignTokens.Proofs.Outcome
import DesignTokens.Proofs.Range.Names

namespace DesignTokens.Range

/-! ## §1. Numbers and texts of a machine -/

/-- Why a computation stops. -/
inductive Fault where
  /-- A number does not fit its type. -/
  | overflow
  /-- A text is cut inside of a character or behind its end. -/
  | boundary
  /-- The first of no values is removed. -/
  | empty
  /-- A loop takes more rounds than it may. -/
  | rounds
deriving Repr, DecidableEq

/-- A signed 64-bit number. -/
def signed64 (n : Int) : Except Fault Int := if holdsIndex n then .ok n else .error .overflow

/-- An unsigned 64-bit number. -/
def unsigned64 (n : Int) : Except Fault Nat :=
  if 0 ≤ n ∧ n < Int.pow 2 64 then .ok n.toNat else .error .overflow

/-- How many bytes the characters take. -/
def byteLength : List Char → Nat
  | [] => 0
  | c :: s => c.utf8Size + byteLength s

/-- The first bytes of a text. -/
def takeBytes : Nat → List Char → Except Fault (List Char)
  | 0, _ => .ok []
  | _ + 1, [] => .error .boundary
  | n + 1, c :: s =>
    if n + 1 < c.utf8Size then .error .boundary
    else (takeBytes (n + 1 - c.utf8Size) s).map (c :: ·)

theorem natPow_signed : Nat.pow 2 63 = 9223372036854775808 := by decide

theorem holdsIndex_iff {n : Int} :
    holdsIndex n = true ↔ -9223372036854775808 ≤ n ∧ n < 9223372036854775808 := by
  have hpow : Int.pow 2 63 = 9223372036854775808 := by decide
  rw [holdsIndex, hpow, Bool.and_eq_true, decide_eq_true_eq, decide_eq_true_eq]

/-- A computation goes on with a number that fits. -/
theorem signed64_bind {α : Type} {n : Int} (h : holdsIndex n = true)
    (next : Int → Except Fault α) : signed64 n >>= next = next n := by
  rw [signed64, if_pos h]
  rfl

theorem unsigned64_bind {α : Type} {n : Int} {m : Nat} (hm : n = m)
    (h : m < 18446744073709551616) (next : Nat → Except Fault α) :
    unsigned64 n >>= next = next m := by
  have hpow : Int.pow 2 64 = 18446744073709551616 := by decide
  rw [unsigned64, hpow, hm, if_pos ⟨by omega, by omega⟩]
  rfl

theorem holdsIndex_of_signed64 {n m : Int} (h : signed64 n = .ok m) : holdsIndex m = true := by
  unfold signed64 at h
  split at h
  · next hholds =>
    cases h
    exact hholds
  · cases h

theorem byteLength_append (s t : List Char) :
    byteLength (s ++ t) = byteLength s + byteLength t := by
  induction s with
  | nil => exact (Nat.zero_add _).symm
  | cons c s ih => rw [List.cons_append, byteLength, ih, byteLength, Nat.add_assoc]

theorem byteLength_toList (s : String) : byteLength s.toList = s.utf8ByteSize := by
  have hchars : ∀ chars, byteLength chars = (String.ofList chars).utf8ByteSize := by
    intro chars
    induction chars with
    | nil => rfl
    | cons c chars ih =>
      rw [String.ofList_cons, String.utf8ByteSize_append, String.utf8ByteSize_singleton,
        byteLength, ih]
  rw [hchars, String.ofList_toList]

/-- A text takes no fewer bytes than the texts in it. -/
theorem byteLength_le_of_infix {s t : List Char} (h : s <:+: t) :
    byteLength s ≤ byteLength t := by
  obtain ⟨front, back, rfl⟩ := h
  rw [byteLength_append, byteLength_append]
  omega

/-- The bytes of the first part of a text are that part. -/
theorem takeBytes_append (s t : List Char) : takeBytes (byteLength s) (s ++ t) = .ok s := by
  induction s with
  | nil =>
    cases t <;> rfl
  | cons c s ih =>
    have hpos : 0 < c.utf8Size := c.utf8Size_pos
    obtain ⟨n, hn⟩ : ∃ n, byteLength (c :: s) = n + 1 :=
      ⟨c.utf8Size - 1 + byteLength s, by rw [byteLength]; omega⟩
    have hrest : n + 1 - c.utf8Size = byteLength s := by
      rw [← hn, byteLength]
      omega
    have hfits : ¬ n + 1 < c.utf8Size := by
      rw [← hn, byteLength]
      omega
    rw [hn, List.cons_append, takeBytes, if_neg hfits, hrest, ih]
    rfl

/-! ## §2. Names as checkpoints -/

/-- `extraIndex?`, step by step. -/
def extraIndex64? (sign : Int) (n : Nat) : Option Int :=
  (signed64 (n + 1) >>= fun next => signed64 (next * sign)).toOption

/-- `extraTier?` in 64-bit numbers. -/
def extraTier64 (sign : Int) (body : List Char) : Except Fault (Option Checkpoint) :=
  if !body.isEmpty && body.all (· == 'x') then do
    let count ← signed64 (byteLength body)
    let steps ← signed64 (count + 1)
    let index ← signed64 (sign * steps)
    return some ⟨.extra, index, count ≠ 1⟩
  else
    match extraTier?.numberExtra? body with
    | some n => .ok ((extraIndex64? sign n).map fun index => ⟨.numberExtra, index, true⟩)
    | none =>
      match extraTier?.extraNumber? body with
      | some n => .ok ((extraIndex64? sign n).map fun index => ⟨.extraNumber, index, true⟩)
      | none => .ok none

/-- `classify` in 64-bit numbers. -/
def classify64 (name : List Char) : Except Fault (Option Checkpoint) :=
  if isNumeral name then
    .ok (if holdsIndex (numeralIndex name) then some ⟨.serial, numeralIndex name, true⟩ else none)
  else
    match standard? name with
    | some checkpoint => .ok (some checkpoint)
    | none =>
      match name.getLast?.bind sideSign? with
      | some sign => do
        let stop ← unsigned64 ((byteLength name : Int) - 1)
        let body ← takeBytes stop name
        extraTier64 sign body
      | none => .ok none

theorem sign_of_sideSign? {side : Char} {sign : Int} (h : sideSign? side = some sign) :
    (sign = 1 ∨ sign = -1) ∧ side.utf8Size = 1 := by
  unfold sideSign? at h
  split at h <;> cases h
  · exact ⟨Or.inr rfl, rfl⟩
  · exact ⟨Or.inl rfl, rfl⟩

theorem holds_sign_mul {sign n : Int} (hsign : sign = 1 ∨ sign = -1) (hlow : 0 ≤ n)
    (hhigh : n < 9223372036854775808) : holdsIndex (sign * n) = true := by
  rw [holdsIndex_iff]
  rcases hsign with rfl | rfl <;> omega

/-- **The next index of a counted tier** is refused exactly if it does not fit. -/
theorem extraIndex64?_eq {sign : Int} (hsign : sign = 1 ∨ sign = -1) (n : Nat) :
    extraIndex64? sign n = extraIndex? sign n := by
  unfold extraIndex64? extraIndex?
  by_cases hfits : n + 1 < Nat.pow 2 63
  · rw [if_pos hfits]
    rw [natPow_signed] at hfits
    have hnext : holdsIndex ((n : Int) + 1) = true :=
      holdsIndex_iff.2 ⟨by omega, by omega⟩
    have hindex : holdsIndex (((n : Int) + 1) * sign) = true := by
      rw [Int.mul_comm]
      exact holds_sign_mul hsign (by omega) (by omega)
    rw [signed64_bind hnext, signed64, if_pos hindex, Int.mul_comm]
    rfl
  · rw [if_neg hfits]
    rw [natPow_signed] at hfits
    have hnext : ¬ holdsIndex ((n : Int) + 1) = true := by
      rw [holdsIndex_iff]
      omega
    rw [signed64, if_neg hnext]
    rfl

theorem byteLength_of_all_x {body : List Char} (h : body.all (· == 'x') = true) :
    byteLength body = body.length := by
  induction body with
  | nil => rfl
  | cons c body ih =>
    obtain ⟨hc, hbody⟩ := Bool.and_eq_true_iff.1 h
    rw [eq_of_beq hc, byteLength, ih hbody, List.length_cons, Nat.add_comm]
    rfl

theorem extraTier64_eq {sign : Int} (hsign : sign = 1 ∨ sign = -1) {body : List Char}
    (hlength : byteLength body + 1 < Nat.pow 2 63) :
    extraTier64 sign body = .ok (extraTier? sign body) := by
  unfold extraTier64 extraTier?
  by_cases hx : (!body.isEmpty && body.all (· == 'x')) = true
  · rw [if_pos hx, if_pos hx]
    rw [natPow_signed] at hlength
    have hcount : byteLength body = body.length :=
      byteLength_of_all_x (Bool.and_eq_true_iff.1 hx).2
    have hstrict : decide ((body.length : Int) ≠ 1) = decide (body.length ≠ 1) := by
      rw [decide_eq_decide]
      omega
    rw [signed64_bind (holdsIndex_iff.2 ⟨by omega, by omega⟩),
      signed64_bind (holdsIndex_iff.2 ⟨by omega, by omega⟩),
      signed64_bind (holds_sign_mul hsign (by omega) (by omega)), hcount, hstrict]
    rfl
  · rw [if_neg hx, if_neg hx]
    cases extraTier?.numberExtra? body with
    | some n =>
      dsimp only
      rw [extraIndex64?_eq hsign]
    | none =>
      cases extraTier?.extraNumber? body with
      | some n =>
        dsimp only
        rw [extraIndex64?_eq hsign]
      | none => rfl

/-- **Names are classified without a fault.** -/
theorem classify64_eq {name : List Char} (hlength : byteLength name < Nat.pow 2 63) :
    classify64 name = .ok (classify name) := by
  unfold classify64 classify
  by_cases hnumeral : isNumeral name = true
  · rw [if_pos hnumeral, if_pos hnumeral]
  · rw [if_neg hnumeral, if_neg hnumeral]
    cases standard? name with
    | some checkpoint => rfl
    | none =>
      rcases List.eq_nil_or_concat name with rfl | ⟨body, side, rfl⟩
      · rfl
      · rw [List.concat_eq_append] at hlength ⊢
        rw [splitLast?_append_singleton, List.getLast?_concat]
        dsimp only
        cases hsign : sideSign? side with
        | none => rw [Option.bind_some, hsign]; rfl
        | some sign =>
          obtain ⟨hone, hsize⟩ := sign_of_sideSign? hsign
          -- the side letter takes one byte, so what is left of the name is its body
          have hbytes : byteLength (body ++ [side]) = byteLength body + 1 := by
            rw [byteLength_append, byteLength, hsize]
            rfl
          rw [hbytes] at hlength ⊢
          have hstop : byteLength body < 18446744073709551616 := by
            rw [natPow_signed] at hlength
            omega
          rw [Option.bind_some, hsign]
          dsimp only
          rw [unsigned64_bind (by omega) hstop, takeBytes_append]
          exact extraTier64_eq hone hlength

/-! ## §3. Indices and their names -/

theorem holds_of_extraIndex64? {sign index : Int} {n : Nat}
    (h : extraIndex64? sign n = some index) : holdsIndex index = true := by
  unfold extraIndex64? at h
  generalize hstep : (signed64 (n + 1) >>= fun next => signed64 (next * sign))
    = step at h
  cases step with
  | error e => cases h
  | ok value =>
    cases h
    obtain ⟨next, -, hindex⟩ := bind_eq_ok_iff.1 hstep
    exact holdsIndex_of_signed64 hindex

theorem holds_of_extraTier64 {sign : Int} {body : List Char} {c : Checkpoint}
    (h : extraTier64 sign body = .ok (some c)) : holdsIndex c.index = true := by
  have hcounted : ∀ {family : Family} {n : Nat},
      (extraIndex64? sign n).map (fun index => (⟨family, index, true⟩ : Checkpoint)) = some c →
        holdsIndex c.index = true := by
    intro family n hc
    obtain ⟨index, hindex, rfl⟩ := Option.map_eq_some_iff.1 hc
    exact holds_of_extraIndex64? hindex
  unfold extraTier64 at h
  split at h
  · obtain ⟨count, -, h⟩ := bind_eq_ok_iff.1 h
    obtain ⟨steps, -, h⟩ := bind_eq_ok_iff.1 h
    obtain ⟨index, hindex, h⟩ := bind_eq_ok_iff.1 h
    cases h
    exact holdsIndex_of_signed64 hindex
  · split at h
    · exact hcounted (Except.ok.inj h)
    · split at h
      · exact hcounted (Except.ok.inj h)
      · cases h

/-- **Every index is a signed 64-bit number.** -/
theorem holdsIndex_of_classify {name : List Char} (hlength : byteLength name < Nat.pow 2 63)
    {c : Checkpoint} (h : classify name = some c) : holdsIndex c.index = true := by
  have h64 : classify64 name = .ok (some c) := by rw [classify64_eq hlength, h]
  unfold classify64 at h64
  split at h64
  · split at h64
    · next hholds =>
      cases h64
      exact hholds
    · cases h64
  · split at h64
    · next hstandard =>
      cases h64
      unfold standard? at hstandard
      split at hstandard <;> cases hstandard <;> rfl
    · split at h64
      · obtain ⟨stop, -, h64⟩ := bind_eq_ok_iff.1 h64
        obtain ⟨body, -, h64⟩ := bind_eq_ok_iff.1 h64
        exact holds_of_extraTier64 h64
      · cases h64

/-- `Family.render` in 64-bit numbers. -/
def Family.render64 (family : Family) (index : Int) : Except Fault (Option (List Char)) := do
  let side := sideLetter index
  let size ← unsigned64 index.natAbs
  -- the difference stops at zero, it has no fault
  let steps ← unsigned64 (size - 1 : Nat)
  return match family with
    | .serial => some (toString index).toList
    | .standardSingle =>
      if index = -1 then some ['s'] else if index = 0 then some ['m']
      else if index = 1 then some ['l'] else none
    | .standardDouble =>
      if index = -1 then some ['s', 'm'] else if index = 0 then some ['m', 'd']
      else if index = 1 then some ['l', 'g'] else none
    | .extra => if 1 ≤ steps then some (List.replicate steps 'x' ++ [side]) else none
    | .numberExtra => if 2 ≤ steps then some (Nat.toDigits 10 steps ++ ['x', side]) else none
    | .extraNumber => if 2 ≤ steps then some ('x' :: Nat.toDigits 10 steps ++ [side]) else none

/-- **An index has its names without a fault.** -/
theorem render64_eq {index : Int} (h : holdsIndex index = true) (family : Family) :
    family.render64 index = .ok (family.render index) := by
  have hbounds := holdsIndex_iff.1 h
  unfold Family.render64
  rw [unsigned64_bind rfl (by omega), unsigned64_bind rfl (by omega)]
  cases family <;> rfl

end DesignTokens.Range
