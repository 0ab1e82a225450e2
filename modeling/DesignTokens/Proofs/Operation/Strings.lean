/-
  DesignTokens.Proofs.Operation.Strings — the strings of an operation, and what they decide.

  A combination is substituted into an operation string by string, so an operation none of whose
  strings is changed stays as it is.

  The strings of a value also decide whether an operation without targets is dropped.  The value
  of a write is resolved before its path is looked at, so a write to no place at all still fails
  where its value does.  The sources of a copy or move are looked at behind its targets, and do
  not matter once there are none.

  Main facts:
    * `mapStringList_eq_ok_iff` — a list is changed string by string.
    * `mapStrings_eq_self` — an operation whose strings stay as they are.
    * `dropped_iff_value_resolves` — when an operation without targets is dropped.
-/
import DesignTokens.Patch.Apply
import DesignTokens.Proofs.Tree.Strings
import Mathlib.Data.List.Forall2

namespace DesignTokens

/-! ## §1. What is asked of the strings -/

/-- The text of the path, or each of its segments, has a property. -/
def WrittenPath.EveryString (p : String → Prop) : WrittenPath → Prop
  | .pointer text => p text
  | .segments names => ∀ name ∈ names, p name

instance {p : String → Prop} [DecidablePred p] (path : WrittenPath) :
    Decidable (path.EveryString p) :=
  match path with
  | .pointer text => inferInstanceAs (Decidable (p text))
  | .segments names => inferInstanceAs (Decidable (∀ name ∈ names, p name))

namespace Operation

/-- Every string that the operation writes has a property: those of its value. -/
def ValueStrings (p : String → Prop) : Operation → Prop
  | .write _ _ value _ => value.EveryString p
  | .transfer .. | .remove .. => True

/-- Every string of the operation has a property: those of its paths and of its value. -/
def EveryString (p : String → Prop) : Operation → Prop
  | .write _ path value _ => path.EveryString p ∧ value.EveryString p
  | .transfer _ source path _ => source.EveryString p ∧ path.EveryString p
  | .remove path _ => path.EveryString p

instance {p : String → Prop} [DecidablePred p] (op : Operation) : Decidable (op.EveryString p) :=
  match op with
  | .write _ path value _ => inferInstanceAs (Decidable (path.EveryString p ∧ value.EveryString p))
  | .transfer _ source path _ =>
    inferInstanceAs (Decidable (source.EveryString p ∧ path.EveryString p))
  | .remove path _ => inferInstanceAs (Decidable (path.EveryString p))

end Operation

section
variable {p q : String → Prop}

theorem WrittenPath.EveryString.mono {path : WrittenPath} (h : path.EveryString p)
    (hpq : ∀ s, p s → q s) : path.EveryString q := by
  cases path with
  | pointer text => exact hpq text h
  | segments names => exact fun name hname => hpq name (h name hname)

theorem Operation.EveryString.mono {op : Operation} (h : op.EveryString p)
    (hpq : ∀ s, p s → q s) : op.EveryString q := by
  cases op with
  | write => exact ⟨WrittenPath.EveryString.mono h.1 hpq, Tree.EveryString.mono h.2 hpq⟩
  | transfer => exact ⟨WrittenPath.EveryString.mono h.1 hpq, WrittenPath.EveryString.mono h.2 hpq⟩
  | remove => exact WrittenPath.EveryString.mono h hpq

end

/-! ## §2. Strings that are changed -/

section Changed

variable {ε : Type} {f : String → Except ε String}

/-- A list is changed string by string. -/
theorem mapStringList_eq_ok_iff {names texts : List String} : mapStringList f names = .ok texts ↔
      List.Forall₂ (fun name text => f name = .ok text) names texts := by
  induction names generalizing texts with
  | nil =>
    constructor
    · rintro ⟨⟩
      exact List.Forall₂.nil
    · rintro ⟨⟩
      rfl
  | cons name rest ih =>
    constructor
    · intro h
      obtain ⟨text, hname, h⟩ := bind_eq_ok_iff.1 h
      obtain ⟨others, hrest, heq⟩ := bind_eq_ok_iff.1 h
      obtain rfl : text :: others = texts := Except.ok.inj heq
      exact List.Forall₂.cons hname (ih.1 hrest)
    · rintro (_ | ⟨hname, hrest⟩)
      exact bind_eq_ok_iff.2 ⟨_, hname, bind_eq_ok_iff.2 ⟨_, ih.2 hrest, rfl⟩⟩

theorem mapStringList_eq_self {names : List String} (h : ∀ name ∈ names, f name = .ok name) :
    mapStringList f names = .ok names :=
  mapStringList_eq_ok_iff.2 (List.forall₂_same.2 h)

theorem WrittenPath.mapStrings_eq_self {path : WrittenPath}
    (h : path.EveryString fun s => f s = .ok s) : path.mapStrings f = .ok path := by
  cases path with
  | pointer text => rw [mapStrings, show f text = .ok text from h]; rfl
  | segments names => rw [mapStrings, mapStringList_eq_self h]; rfl

/-- An operation whose strings stay as they are stays as it is. -/
theorem Operation.mapStrings_eq_self {op : Operation}
    (h : op.EveryString fun s => f s = .ok s) : op.mapStrings f = .ok op := by
  cases op with
  | write mode path value strict =>
    rw [mapStrings, WrittenPath.mapStrings_eq_self h.1, Tree.mapStrings_eq_self h.2]
    rfl
  | transfer mode source path strict =>
    rw [mapStrings, WrittenPath.mapStrings_eq_self h.1, WrittenPath.mapStrings_eq_self h.2]
    rfl
  | remove path strict =>
    rw [mapStrings, WrittenPath.mapStrings_eq_self h]
    rfl

end Changed

/-! ## §3. Operations without targets -/

namespace Operation

variable {vars : Variables} {op : Operation}

theorem edits_write_of_value {mode : WriteMode} {path : WrittenPath} {value resolved : Tree}
    {strict : Option Bool} (hvalue : vars.resolveTree value = .ok resolved) :
    (Operation.write mode path value strict).edits vars =
      (path.expand vars).map fun targets =>
        targets.map fun target => .write mode target resolved strict := by
  rw [edits, hvalue]
  cases path.expand vars <;> rfl

/-- **An operation whose path expands to nothing is dropped** when every string of its value
    resolves, and otherwise fails for a variable of its value.  Its sources do not matter, and a
    copy, a move or a removal is always dropped. -/
theorem dropped_iff_value_resolves (h : op.path.expand vars = .ok []) :
    (op.edits vars = .ok [] ↔ op.ValueStrings fun s => ∃ resolved, vars.resolve s = .ok resolved) ∧
    ((∃ fault, op.edits vars = .error (.variable fault)) ↔
      ¬ op.ValueStrings fun s => ∃ resolved, vars.resolve s = .ok resolved) := by
  cases op with
  | write mode path value strict =>
    have hresolves : (∃ resolved, vars.resolveTree value = .ok resolved) ↔
        value.EveryString fun s => ∃ resolved, vars.resolve s = .ok resolved :=
      Tree.exists_mapStrings_eq_ok_iff value
    show (_ ↔ value.EveryString _) ∧ (_ ↔ ¬ value.EveryString _)
    rw [← hresolves]
    cases hvalue : vars.resolveTree value with
    | ok resolved =>
      -- the value is there, and there is no place to write it to
      have hedits : (Operation.write mode path value strict).edits vars = .ok [] := by
        rw [edits_write_of_value hvalue, show path.expand vars = .ok [] from h]
        rfl
      rw [hedits]
      simp
    | error fault =>
      -- the value is resolved before the path is looked at
      have hedits : (Operation.write mode path value strict).edits vars
          = .error (.variable fault) := by
        rw [edits, hvalue]
        rfl
      rw [hedits]
      simp
  | transfer mode source path strict =>
    rw [edits_transfer_nil (show path.expand vars = .ok [] from h)]
    simp [ValueStrings]
  | remove path strict =>
    have hedits : (Operation.remove path strict).edits vars = .ok [] := by
      rw [edits, show path.expand vars = .ok [] from h]
      rfl
    rw [hedits]
    simp [ValueStrings]

/-- A write to no place, of a value with a variable. -/
def shadeNowhere : Operation :=
  .write .add (.pointer "/shades/$[[]]") (.arr [.num (.int 1), .str "$\x7b\x7b base \x7d\x7d"]) none

/-- A table that knows the variable. -/
def baseColors : Variables := .ofEntries [("base", .str "#123456")]

/-- Where the variable is known, the write is dropped. -/
theorem shadeNowhere_dropped :
    shadeNowhere.path.expand baseColors = .ok [] ∧ shadeNowhere.edits baseColors = .ok [] := by
  have hexpand : shadeNowhere.path.expand baseColors = .ok [] :=
    eq_ok_of_toOption (by decide +kernel)
  refine ⟨hexpand, (dropped_iff_value_resolves hexpand).1.2 ?_⟩
  refine Tree.everyString_arr_iff.2 fun item hitem => ?_
  rcases List.mem_cons.1 hitem with rfl | hitem
  · exact Tree.everyString_num _
  · rw [List.mem_singleton.1 hitem]
    exact Tree.everyString_str_iff.2 ⟨"#123456", eq_ok_of_toOption (by decide +kernel)⟩

/-- Where it is not, the write is not dropped, though it has no place to write to. -/
theorem shadeNowhere_not_dropped :
    shadeNowhere.path.expand (.ofEntries []) = .ok [] ∧
      shadeNowhere.edits (.ofEntries []) = .error (.variable (.notFound "base" [])) :=
  ⟨eq_ok_of_toOption (by decide +kernel), eq_error_of_fault? (by decide +kernel)⟩

end Operation

end DesignTokens
