/-
  DesignTokens.Proofs.Outcome — steps that may fail, taken apart.

  Where steps made one after the other succeed, each of them has succeeded.

  Main facts:
    * `bind_eq_ok_iff` — two steps succeed when the first does and the second does after it.
    * `bind_eq_error_iff` — they fail when the first does, or the second after it.
    * `map_eq_ok_iff`, `map_eq_error_iff` — a step whose result is changed ends as the step does.
    * `exists_both_eq_ok_iff` — steps whose results are put together succeed together.
    * `eq_error_iff_of_map_eq` — steps with one changed result fail alike.
    * `mapM_cons_eq_some_iff`, `exists_mapM_eq_some_iff` — a list of steps succeeds when each of
      them does.
    * `Makes.bind`, `Finds.bind` — what two steps make, from what each of them makes.
-/

namespace DesignTokens

variable {ε α β : Type}

/-! ## §1. One step -/

theorem bind_eq_ok_iff {step : Except ε α} {next : α → Except ε β} {b : β} :
    (step >>= next) = .ok b ↔ ∃ a, step = .ok a ∧ next a = .ok b := by
  constructor
  · intro h
    cases step with
    | error e => cases h
    | ok a => exact ⟨a, rfl, h⟩
  · rintro ⟨a, rfl, h⟩
    exact h

theorem bind_eq_error_iff {step : Except ε α} {next : α → Except ε β} {e : ε} :
    (step >>= next) = .error e ↔ step = .error e ∨ ∃ a, step = .ok a ∧ next a = .error e := by
  cases step with
  | error other =>
    constructor
    · rintro ⟨⟩
      exact Or.inl rfl
    · rintro (⟨⟨⟩⟩ | ⟨a, hstep, -⟩)
      · rfl
      · cases hstep
  | ok a =>
    constructor
    · exact fun h => Or.inr ⟨a, rfl, h⟩
    · rintro (hstep | ⟨b, hstep, h⟩)
      · cases hstep
      · cases hstep
        exact h

theorem map_eq_ok_iff {step : Except ε α} {f : α → β} {b : β} :
    step.map f = .ok b ↔ ∃ a, step = .ok a ∧ f a = b := by
  constructor
  · intro h
    cases step with
    | error e => cases h
    | ok a => exact ⟨a, rfl, Except.ok.inj h⟩
  · rintro ⟨a, rfl, rfl⟩
    rfl

theorem map_eq_error_iff {step : Except ε α} {f : α → β} {e : ε} :
    step.map f = .error e ↔ step = .error e := by
  cases step with
  | error other =>
    constructor
    · rintro ⟨⟩
      rfl
    · rintro ⟨⟩
      rfl
  | ok a => exact iff_of_false (fun h => nomatch h) (fun h => nomatch h)

/-- Changing the result of two steps is changing that of the second one. -/
theorem map_bind {γ : Type} (step : Except ε α) (next : α → Except ε β) (f : β → γ) :
    (step >>= next).map f = step >>= fun a => (next a).map f := by
  cases step with
  | error e => rfl
  | ok a => rfl

/-- A step whose result is changed succeeds when the step does. -/
theorem exists_map_eq_ok_iff {step : Except ε α} {f : α → β} :
    (∃ b, step.map f = .ok b) ↔ ∃ a, step = .ok a := by
  cases step with
  | error e => exact iff_of_false (fun ⟨_, h⟩ => nomatch h) (fun ⟨_, h⟩ => nomatch h)
  | ok a => exact iff_of_true ⟨f a, rfl⟩ ⟨a, rfl⟩

/-- Two steps whose results are put together succeed when both of them do. -/
theorem exists_both_eq_ok_iff {γ : Type} {step : Except ε α} {other : Except ε β}
    {f : α → β → γ} : (∃ c, (do let a ← step; let b ← other; return f a b) = .ok c) ↔
      (∃ a, step = .ok a) ∧ ∃ b, other = .ok b := by
  constructor
  · rintro ⟨c, h⟩
    obtain ⟨a, hstep, h⟩ := bind_eq_ok_iff.1 h
    obtain ⟨b, hother, -⟩ := bind_eq_ok_iff.1 h
    exact ⟨⟨a, hstep⟩, b, hother⟩
  · rintro ⟨⟨a, rfl⟩, b, rfl⟩
    exact ⟨f a b, rfl⟩

/-- Naming the failures of two steps is naming those of each. -/
theorem mapError_bind {ε' : Type} (step : Except ε α) (next : α → Except ε β) (f : ε → ε') :
    (step >>= next).mapError f = step.mapError f >>= fun a => (next a).mapError f := by
  cases step with
  | error e => rfl
  | ok a => rfl

/-- Steps that come to the same once their results are changed fail alike. -/
theorem eq_error_iff_of_map_eq {step other : Except ε α} {f : α → β}
    (h : step.map f = other.map f) (e : ε) : step = .error e ↔ other = .error e := by
  cases step with
  | error e₁ =>
    cases other with
    | error e₂ =>
      obtain rfl : e₁ = e₂ := Except.error.inj h
      exact Iff.rfl
    | ok b => cases h
  | ok a =>
    cases other with
    | error e₂ => cases h
    | ok b => exact iff_of_false (fun h => nomatch h) (fun h => nomatch h)

/-- And they succeed alike. -/
theorem exists_eq_ok_iff_of_map_eq {step other : Except ε α} {f : α → β}
    (h : step.map f = other.map f) : (∃ a, step = .ok a) ↔ ∃ b, other = .ok b := by
  cases step with
  | error e₁ =>
    cases other with
    | error e₂ => exact iff_of_false (fun ⟨_, h⟩ => nomatch h) (fun ⟨_, h⟩ => nomatch h)
    | ok b => cases h
  | ok a =>
    cases other with
    | error e₂ => cases h
    | ok b => exact iff_of_true ⟨a, rfl⟩ ⟨b, rfl⟩

theorem eq_ok_of_toOption {step : Except ε α} {a : α} (h : step.toOption = some a) :
    step = .ok a := by
  cases step with
  | error e => cases h
  | ok b => exact congrArg Except.ok (Option.some.inj h)

/-- The failure of a step, if it fails. -/
def fault? : Except ε α → Option ε
  | .error e => some e
  | .ok _ => none

theorem eq_error_of_fault? {step : Except ε α} {e : ε} (h : fault? step = some e) :
    step = .error e := by
  cases step with
  | error other => exact congrArg Except.error (Option.some.inj h)
  | ok a => cases h

/-! ## §2. Lists of steps -/

section Lists

variable {f : α → Option β} {xs : List α} {ys : List β}

theorem mapM_cons_eq_some_iff {x : α} :
    (x :: xs).mapM f = some ys ↔ ∃ y rest, f x = some y ∧ xs.mapM f = some rest ∧ y :: rest = ys := by
  rw [List.mapM_cons, Option.bind_eq_bind, Option.bind_eq_some_iff]
  refine exists_congr fun y => ?_
  rw [Option.bind_eq_bind, Option.bind_eq_some_iff]
  simp

/-- What is read back one by one is read back as a whole. -/
theorem mapM_eq_some_of_mapM {g : β → Option α}
    (hinverse : ∀ x ∈ xs, ∀ y, f x = some y → g y = some x) (h : xs.mapM f = some ys) :
    ys.mapM g = some xs := by
  induction xs generalizing ys with
  | nil =>
    rw [List.mapM_nil] at h
    cases h
    rfl
  | cons x xs ih =>
    obtain ⟨y, rest, hy, hrest, rfl⟩ := mapM_cons_eq_some_iff.1 h
    have hback : rest.mapM g = some xs :=
      ih (fun z hz => hinverse z (List.mem_cons_of_mem x hz)) hrest
    exact mapM_cons_eq_some_iff.2 ⟨x, xs, hinverse x List.mem_cons_self y hy, hback, rfl⟩

theorem isSome_of_mem_of_mapM (h : xs.mapM f = some ys) {x : α} (hx : x ∈ xs) :
    (f x).isSome = true := by
  induction xs generalizing ys with
  | nil => cases hx
  | cons first xs ih =>
    obtain ⟨y, rest, hy, hrest, -⟩ := mapM_cons_eq_some_iff.1 h
    rcases List.mem_cons.1 hx with rfl | hmem
    · rw [hy]
      rfl
    · exact ih hrest hmem

/-- A list of steps succeeds as soon as each of them does. -/
theorem exists_mapM_eq_some_iff :
    (∃ ys, xs.mapM f = some ys) ↔ ∀ x ∈ xs, (f x).isSome = true := by
  constructor
  · rintro ⟨ys, h⟩ x hx
    exact isSome_of_mem_of_mapM h hx
  · intro h
    induction xs with
    | nil => exact ⟨[], List.mapM_nil⟩
    | cons x xs ih =>
      obtain ⟨hx, hrest⟩ := List.forall_mem_cons.1 h
      obtain ⟨y, hy⟩ := Option.isSome_iff_exists.1 hx
      obtain ⟨rest, hsteps⟩ := ih hrest
      exact ⟨y :: rest, mapM_cons_eq_some_iff.2 ⟨y, rest, hy, hsteps, rfl⟩⟩

/-- Steps that are made in the opposite order give their results in the opposite order. -/
theorem mapM_reverse (f : α → Option β) (xs : List α) :
    xs.reverse.mapM f = (xs.mapM f).map List.reverse := by
  induction xs with
  | nil => rfl
  | cons x xs ih =>
    rw [List.reverse_cons, List.mapM_append, ih, List.mapM_cons, List.mapM_cons, List.mapM_nil]
    cases xs.mapM f with
    | none => cases f x <;> rfl
    | some ys =>
      cases f x with
      | none => rfl
      | some y => exact congrArg some List.reverse_cons.symm

theorem head?_of_mapM (h : xs.mapM f = some ys) : ys.head? = xs.head?.bind f := by
  cases xs with
  | nil =>
    rw [List.mapM_nil] at h
    cases h
    rfl
  | cons x xs =>
    obtain ⟨y, rest, hy, -, rfl⟩ := mapM_cons_eq_some_iff.1 h
    exact hy.symm

theorem getLast?_of_mapM (h : xs.mapM f = some ys) : ys.getLast? = xs.getLast?.bind f := by
  -- the last step is the first of those in the opposite order
  have hreverse : xs.reverse.mapM f = some ys.reverse := by rw [mapM_reverse, h, Option.map_some]
  rw [← List.head?_reverse, ← List.head?_reverse]
  exact head?_of_mapM hreverse

theorem tail_of_mapM (h : xs.mapM f = some ys) : xs.tail.mapM f = some ys.tail := by
  cases xs with
  | nil =>
    rw [List.mapM_nil] at h
    cases h
    rfl
  | cons x xs =>
    obtain ⟨y, rest, -, hrest, rfl⟩ := mapM_cons_eq_some_iff.1 h
    exact hrest

end Lists

/-! ## §3. What a step makes -/

section Makes

variable {ε' : Type} {step : Except ε α} {p q : α → Prop}

/-- Whatever the step makes has a property, if it makes anything. -/
def Makes (step : Except ε α) (p : α → Prop) : Prop := ∀ a, step = .ok a → p a

theorem Makes.ok {a : α} (h : p a) : Makes (.ok a : Except ε α) p := by
  intro b hb
  obtain rfl : a = b := Except.ok.inj hb
  exact h

theorem Makes.error (e : ε) (p : α → Prop) : Makes (.error e) p := fun _ h => nomatch h

instance [DecidablePred p] (step : Except ε α) : Decidable (Makes step p) :=
  match step with
  | .ok a => decidable_of_iff (p a) ⟨Makes.ok, fun h => h a rfl⟩
  | .error e => isTrue (Makes.error e p)

theorem Makes.mono (h : Makes step p) (hpq : ∀ a, p a → q a) : Makes step q :=
  fun a ha => hpq a (h a ha)

theorem Makes.bind {next : α → Except ε β} {q : β → Prop} (h : Makes step p)
    (hnext : ∀ a, p a → Makes (next a) q) : Makes (step >>= next) q := by
  intro b hb
  obtain ⟨a, hstep, hrest⟩ := bind_eq_ok_iff.1 hb
  exact hnext a (h a hstep) b hrest

theorem Makes.map {f : α → β} {q : β → Prop} (h : Makes step p) (hf : ∀ a, p a → q (f a)) :
    Makes (step.map f) q := by
  intro b hb
  obtain ⟨a, hstep, rfl⟩ := map_eq_ok_iff.1 hb
  exact hf a (h a hstep)

theorem Makes.mapError (h : Makes step p) (f : ε → ε') : Makes (step.mapError f) p := by
  intro a ha
  cases step with
  | error e => cases ha
  | ok b =>
    obtain rfl : b = a := Except.ok.inj ha
    exact h b rfl

/-- Nothing has to be known of what a step makes. -/
theorem Makes.trivial (step : Except ε α) : Makes step fun _ => True := fun _ _ => True.intro

end Makes

section Finds

variable {found : Option α} {p : α → Prop}

/-- Whatever is found has a property, if anything is. -/
def Finds (found : Option α) (p : α → Prop) : Prop := ∀ a, found = some a → p a

theorem Finds.some {a : α} (h : p a) : Finds (some a) p := by
  intro b hb
  obtain rfl : a = b := Option.some.inj hb
  exact h

theorem Finds.none (p : α → Prop) : Finds none p := fun _ h => nomatch h

theorem Finds.bind {next : α → Option β} {q : β → Prop} (h : Finds found p)
    (hnext : ∀ a, p a → Finds (next a) q) : Finds (found >>= next) q := by
  intro b hb
  obtain ⟨a, hfound, hrest⟩ := Option.bind_eq_some_iff.1 hb
  exact hnext a (h a hfound) b hrest

theorem Finds.map {f : α → β} {q : β → Prop} (h : Finds found p) (hf : ∀ a, p a → q (f a)) :
    Finds (found.map f) q := by
  intro b hb
  obtain ⟨a, hfound, rfl⟩ := Option.map_eq_some_iff.1 hb
  exact hf a (h a hfound)

theorem Finds.orElse {other : Option α} (h : Finds found p) (hother : Finds other p) :
    Finds (found <|> other) p := by
  cases found with
  | none => exact hother
  | some a => exact h

/-- A list of steps keeps what each of them keeps. -/
theorem Finds.foldlM {step : α → β → Option α} {bs : List β}
    (hstep : ∀ a, p a → ∀ b ∈ bs, Finds (step a b) p) {start : α} (hstart : p start) :
    Finds (bs.foldlM step start) p := by
  induction bs generalizing start with
  | nil => exact Finds.some hstart
  | cons b rest ih =>
    rw [List.foldlM_cons]
    refine (hstep start hstart b List.mem_cons_self).bind fun a ha => ih (fun a ha c hc => ?_) ha
    exact hstep a ha c (List.mem_cons_of_mem _ hc)

/-- Nothing has to be known of what is found. -/
theorem Finds.trivial (found : Option α) : Finds found fun _ => True := fun _ _ => True.intro

end Finds

end DesignTokens
