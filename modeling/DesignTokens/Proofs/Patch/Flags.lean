/-
  DesignTokens.Proofs.Patch.Flags — whose strictness counts.

  Operations, patches and the caller may each say whether edits are strict, and the first of them
  who says something decides.  The word of an operation is nothing but a mark on it: substituting
  a combination and expanding the paths copy the mark to every edit that comes of the operation,
  and only making the edit looks at it.  So it makes no difference whether a patch says something
  for all of its operations, or each operation without a word of its own says it, or the caller.

  Main facts:
    * `substitute_mapStrict`, `edits_mapStrict` — the mark of an operation travels unchanged.
    * `apply_withDefault` — an edit that takes over a default does not ask for another one.
    * `run_withDefault` — so neither does an operation, nor any list of them.
    * `strict_precedence` — a patch, its operations and the caller say the same.
-/
import DesignTokens.Patch.Apply
import DesignTokens.Proofs.Outcome

namespace DesignTokens

/-! ## §1. Flags -/

/-- The edit with its flag changed. -/
def Edit.mapStrict (f : Option Bool → Option Bool) : Edit → Edit
  | .write mode path value strict => .write mode path value (f strict)
  | .transfer mode source path strict => .transfer mode source path (f strict)
  | .remove path strict => .remove path (f strict)

/-- The edit that takes over a default, unless it has a flag of its own. -/
def Edit.withDefault (strict : Bool) : Edit → Edit := Edit.mapStrict (·.or (some strict))

/-- The operation with its flag changed. -/
def Operation.mapStrict (f : Option Bool → Option Bool) : Operation → Operation
  | .write mode path value strict => .write mode path value (f strict)
  | .transfer mode source path strict => .transfer mode source path (f strict)
  | .remove path strict => .remove path (f strict)

/-- The operation that takes over a default, unless it has a flag of its own. -/
def Operation.withDefault (strict : Bool) : Operation → Operation :=
  Operation.mapStrict (·.or (some strict))

/-- The patch without a flag. -/
def Patch.withoutStrict (p : Patch) : Patch := { p with strict := none }

/-- The patch without a flag, a default being written to each of its operations instead. -/
def Patch.spellStrict (p : Patch) (strict : Bool) : Patch :=
  { p.withoutStrict with operations := p.operations.map (Operation.withDefault strict) }

/-! ## §2. The way of a flag -/

namespace Operation

variable (f : Option Bool → Option Bool)

/-- Changing the strings of an operation leaves its flag. -/
theorem mapStrings_mapStrict {ε : Type} (g : String → Except ε String) (op : Operation) :
    (op.mapStrict f).mapStrings g = (op.mapStrings g).map (mapStrict f) := by
  cases op with
  | write mode path value strict =>
    rw [mapStrict, mapStrings, mapStrings, map_bind]
    refine congrArg _ (funext fun path => ?_)
    rw [map_bind]
    rfl
  | transfer mode source path strict =>
    rw [mapStrict, mapStrings, mapStrings, map_bind]
    refine congrArg _ (funext fun source => ?_)
    rw [map_bind]
    rfl
  | remove path strict =>
    rw [mapStrict, mapStrings, mapStrings, map_bind]
    rfl

/-- The values of a combination do not touch the flag. -/
theorem substitute_mapStrict (combination : Option Combination) (op : Operation) :
    (op.mapStrict f).substitute combination = (op.substitute combination).map (mapStrict f) := by
  cases combination with
  | none => rfl
  | some c => exact mapStrings_mapStrict f _ op

/-- **Every edit has the flag of the operation that it comes of.** -/
theorem edits_mapStrict (vars : Variables) (op : Operation) :
    (op.mapStrict f).edits vars = (op.edits vars).map (List.map (Edit.mapStrict f)) := by
  cases op with
  | write mode path value strict =>
    rw [mapStrict, edits, edits, map_bind]
    refine congrArg _ (funext fun value => ?_)
    rw [map_bind]
    refine congrArg _ (funext fun targets => ?_)
    show Except.ok _ = Except.ok (List.map _ (List.map _ targets))
    rw [List.map_map]
    rfl
  | transfer mode source path strict =>
    rw [mapStrict, edits, edits, map_bind]
    refine congrArg _ (funext fun targets => ?_)
    -- without targets there are no edits that could have a flag
    split
    · rfl
    · rw [map_bind]
      refine congrArg _ (funext fun sources => ?_)
      rw [map_bind]
      refine congrArg _ (funext fun pairs => ?_)
      show Except.ok _ = Except.ok (List.map _ (List.map _ pairs))
      rw [List.map_map]
      rfl
  | remove path strict =>
    rw [mapStrict, edits, edits, map_bind]
    refine congrArg _ (funext fun targets => ?_)
    show Except.ok _ = Except.ok (List.map _ (List.map _ targets))
    rw [List.map_map]
    rfl

end Operation

/-! ## §3. Runs -/

section Runs

variable (own outer : Bool)

/-- Making an edit, strict or not, does not look at its flag. -/
theorem Edit.applyWith_mapStrict (f : Option Bool → Option Bool) (strict : Bool) (edit : Edit)
    (doc : Tree) : (edit.mapStrict f).applyWith strict doc = edit.applyWith strict doc := by
  cases edit with
  | write => rfl
  | transfer mode => cases mode <;> rfl
  | remove => rfl

/-- **An edit that takes over a default does not ask for another one.** -/
theorem Edit.apply_withDefault (edit : Edit) (doc : Tree) :
    (edit.withDefault own).apply outer doc = edit.apply own doc := by
  have hflag : (edit.withDefault own).strict.getD outer = edit.strict.getD own := by
    have hstrict : (edit.withDefault own).strict = edit.strict.or (some own) := by
      cases edit with
      | write => rfl
      | transfer => rfl
      | remove => rfl
    rw [hstrict]
    cases edit.strict with
    | none => rfl
    | some flag => rfl
  unfold apply
  rw [hflag]
  exact applyWith_mapStrict _ _ edit doc

theorem Edit.applyAll_withDefault (edits : List Edit) (doc : Tree) :
    applyAll outer (edits.map (Edit.withDefault own)) doc = applyAll own edits doc := by
  induction edits generalizing doc with
  | nil => rfl
  | cons edit rest ih =>
    rw [List.map_cons, applyAll, applyAll, Edit.apply_withDefault]
    exact congrArg _ (funext ih)

namespace Operation

/-- **An operation that takes over a default runs under any other as it runs under this one.** -/
theorem run_withDefault (combination : Option Combination) (op : Operation) (doc : Tree) :
    (op.withDefault own).run outer combination doc = op.run own combination doc := by
  unfold run withDefault
  rw [substitute_mapStrict]
  cases op.substitute combination with
  | error fault => rfl
  | ok op =>
    show ((op.mapStrict (·.or (some own))).edits (Variables.ofDocument doc)).mapError
        OperationError.compile >>= _ = (op.edits (Variables.ofDocument doc)).mapError
        OperationError.compile >>= _
    rw [edits_mapStrict]
    cases op.edits (Variables.ofDocument doc) with
    | error fault => rfl
    | ok edits =>
      show (Edit.applyAll outer (edits.map (Edit.withDefault own)) doc).mapError _ = _
      rw [Edit.applyAll_withDefault]
      rfl

theorem runFrom_withDefault (combination : Option Combination) (operations : List Operation)
    (index : Nat) (doc : Tree) :
    runFrom outer combination index (operations.map (Operation.withDefault own)) doc
      = runFrom own combination index operations doc := by
  induction operations generalizing index doc with
  | nil => rfl
  | cons op rest ih =>
    rw [List.map_cons, runFrom, runFrom, run_withDefault]
    exact congrArg _ (funext (ih (index + 1)))

theorem runAll_withDefault (operations : List Operation) (combinations : List Combination)
    (doc : Tree) : runAll outer (operations.map (Operation.withDefault own)) combinations doc
      = runAll own operations combinations doc := by
  induction combinations generalizing doc with
  | nil => rfl
  | cons c rest ih =>
    rw [runAll, runAll, runFrom_withDefault]
    exact congrArg _ (funext ih)

end Operation

end Runs

/-! ## §4. Patches -/

namespace Patch

/-- **Strictness can be said in three places.**  A patch with a flag makes of every document what
    it makes without the flag where each operation that has none is given it, under whatever
    default, and what it makes without the flag under the flag as the default.  Failures are the
    same too, with their places and combinations. -/
theorem strict_precedence (p : Patch) (strict first second : Bool) (doc : Tree) :
    (p.withStrict strict).apply first doc = (p.spellStrict strict).apply second doc ∧
      (p.withStrict strict).apply first doc = p.withoutStrict.apply strict doc := by
  have hcaller : (p.withStrict strict).apply first doc = p.withoutStrict.apply strict doc := rfl
  refine ⟨?_, hcaller⟩
  rw [hcaller]
  have hcombinations : (p.spellStrict strict).combinations = p.withoutStrict.combinations := rfl
  unfold apply
  rw [hcombinations]
  refine congrArg _ (funext fun combinations => ?_)
  cases combinations with
  | none => exact (Operation.runFrom_withDefault strict second none p.operations 1 doc).symm
  | some combinations =>
    exact (Operation.runAll_withDefault strict second p.operations combinations doc).symm

end Patch

end DesignTokens
