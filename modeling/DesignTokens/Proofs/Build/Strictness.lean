/-
  DesignTokens.Proofs.Build.Strictness — strictness only checks.

  A strict edit asks more of a document than a lenient one, but what it leaves behind is the
  same.  Whoever runs a patch or builds a document strictly and meets no failure would have got
  the same result without strictness.

  The flag that counts is decided in three places: an operation may carry one, then a patch, and
  only then the default of the builder holds.  So two defaults are compared throughout, of which
  one is at most as strict as the other; a flag of its own makes two runs equal, and none leaves
  the comparison as it was.

  Main facts:
    * `relaxes_writeBelow` — a write with fewer checks makes the same tree.
    * `relaxes_apply` — so does a patch under a default that is less strict.
    * `build_eq_of_stricter` — a build that succeeds takes the same steps under such a default.
    * `strict_only_checks` — what a strict builder builds a lenient one builds too.
-/
import DesignTokens.Build.Builder
import DesignTokens.Proofs.Outcome

namespace DesignTokens

/-! ## §1. Runs with fewer checks -/

section Relaxes

variable {ε ε' α β : Type}

/-- The first run makes whatever the second one makes. -/
def Relaxes (lenient strict : Except ε α) : Prop := ∀ a, strict = .ok a → lenient = .ok a

theorem Relaxes.refl (run : Except ε α) : Relaxes run run := fun _ h => h

/-- Runs of two steps, of which each makes what its counterpart makes. -/
theorem Relaxes.bind {lenient strict : Except ε α} {next next' : α → Except ε β}
    (h : Relaxes lenient strict) (hnext : ∀ a, Relaxes (next a) (next' a)) :
    Relaxes (lenient >>= next) (strict >>= next') := by
  intro b hb
  obtain ⟨a, hstep, hrest⟩ := bind_eq_ok_iff.1 hb
  exact bind_eq_ok_iff.2 ⟨a, h a hstep, hnext a b hrest⟩

/-- Failures may be told apart or not. -/
theorem Relaxes.mapError {lenient strict : Except ε α} (h : Relaxes lenient strict)
    (f : ε → ε') : Relaxes (lenient.mapError f) (strict.mapError f) := by
  intro a ha
  cases strict with
  | error e => cases ha
  | ok b =>
    obtain rfl : b = a := Except.ok.inj ha
    rw [h b rfl]
    rfl

/-- A flag of one's own decides alone; without one the defaults compare as they did. -/
theorem getD_le {lenient strict : Bool} (h : lenient ≤ strict) (flag : Option Bool) :
    flag.getD lenient ≤ flag.getD strict := by
  cases flag with
  | none => exact h
  | some own => exact id

end Relaxes

/-! ## §2. Edits -/

namespace Edit

variable {lenient strict : Bool} (hle : lenient ≤ strict)

include hle

theorem relaxes_check (mode : WriteMode) (path : Pointer) (created : Option Pointer)
    (present : Bool) :
    Relaxes (check mode lenient path created present) (check mode strict path created present) := by
  intro a h
  cases lenient with
  | false => rfl
  | true =>
    have hstrict : strict = true := hle rfl
    rwa [hstrict] at h

theorem relaxes_writeChild (mode : WriteMode) (value : Tree) (created : Option Pointer)
    (here : Pointer) (segment : String) (t : Tree) :
    Relaxes (writeChild mode lenient value created here segment t)
      (writeChild mode strict value created here segment t) := by
  cases t with
  | null | bool | num | str => exact Relaxes.refl _
  | obj fields =>
    unfold writeChild
    exact (relaxes_check hle mode _ created _).bind fun _ => Relaxes.refl _
  | arr items =>
    unfold writeChild
    refine (Relaxes.refl _).bind fun index => ?_
    exact (relaxes_check hle mode _ created _).bind fun _ => Relaxes.refl _

/-- **A write with fewer checks makes the same tree.**  The checks come last, so the walk down
    to the parent is the same, whatever it has to create. -/
theorem relaxes_writeBelow (mode : WriteMode) (value : Tree) (rest : List String) :
    ∀ (created : Option Pointer) (here : Pointer) (segment : String) (t : Tree),
      Relaxes (writeBelow mode lenient value created here segment rest t)
        (writeBelow mode strict value created here segment rest t) := by
  induction rest with
  | nil =>
    intro created here segment t
    rw [writeBelow, writeBelow]
    exact relaxes_writeChild hle mode value created here segment t
  | cons next rest ih =>
    intro created here segment t
    cases t with
    | null | bool | num | str => exact Relaxes.refl _
    | obj fields =>
      unfold writeBelow
      cases Entries.get? segment fields with
      | none => exact (ih _ _ next _).bind fun _ => Relaxes.refl _
      | some child => exact (ih _ _ next _).bind fun _ => Relaxes.refl _
    | arr items =>
      unfold writeBelow
      refine (Relaxes.refl _).bind fun index => ?_
      cases items[index]? with
      | none => exact (ih _ _ next _).bind fun _ => Relaxes.refl _
      | some child => exact (ih _ _ next _).bind fun _ => Relaxes.refl _

theorem relaxes_writeAt (mode : WriteMode) (path : Pointer) (value doc : Tree) :
    Relaxes (writeAt mode lenient path value doc) (writeAt mode strict path value doc) := by
  unfold writeAt
  cases path.segments with
  | nil => exact Relaxes.refl _
  | cons segment rest => exact relaxes_writeBelow hle mode value rest none .root segment doc

/-- Every kind of edit makes with fewer checks what it makes with more. -/
theorem relaxes_applyWith (edit : Edit) (doc : Tree) :
    Relaxes (edit.applyWith lenient doc) (edit.applyWith strict doc) := by
  unfold applyWith
  cases edit with
  | write mode path value flag => exact relaxes_writeAt hle mode path value doc
  | transfer mode source path flag =>
    cases mode with
    | copy =>
      refine (Relaxes.refl (get doc source)).bind fun found => ?_
      cases found with
      | none => exact Relaxes.refl _
      | some node => exact relaxes_writeAt hle .add path node doc
    | move =>
      refine (Relaxes.refl (take doc source)).bind fun found => ?_
      cases found with
      | none => exact Relaxes.refl _
      | some found => exact relaxes_writeAt hle .add path found.node found.remainder
  | remove path flag =>
    dsimp only
    split
    · exact Relaxes.refl _
    · refine (Relaxes.refl (take doc path)).bind fun found => ?_
      cases found with
      | some found => exact Relaxes.refl _
      | none =>
        -- nothing to remove: the one place where a removal is checked
        intro d hd
        cases lenient with
        | false =>
          cases strict with
          | false => exact hd
          | true => cases hd
        | true =>
          have hstrict : strict = true := hle rfl
          rwa [hstrict] at hd

theorem relaxes_apply (edit : Edit) (doc : Tree) :
    Relaxes (edit.apply lenient doc) (edit.apply strict doc) :=
  relaxes_applyWith (getD_le hle edit.strict) edit doc

theorem relaxes_applyAll (edits : List Edit) :
    ∀ doc : Tree, Relaxes (applyAll lenient edits doc) (applyAll strict edits doc) := by
  induction edits with
  | nil => intro doc; exact Relaxes.refl _
  | cons edit rest ih =>
    intro doc
    exact (relaxes_apply hle edit doc).bind ih

end Edit

/-! ## §3. Patches -/

namespace Operation

variable {lenient strict : Bool} (hle : lenient ≤ strict)

include hle

/-- What an operation stands for does not depend on strictness, only how it is made. -/
theorem relaxes_run (combination : Option Combination) (op : Operation) (doc : Tree) :
    Relaxes (op.run lenient combination doc) (op.run strict combination doc) := by
  unfold run
  refine (Relaxes.refl _).bind fun op => (Relaxes.refl _).bind fun edits => ?_
  exact (Edit.relaxes_applyAll hle edits doc).mapError _

theorem relaxes_runFrom (combination : Option Combination) (operations : List Operation) :
    ∀ (index : Nat) (doc : Tree), Relaxes (runFrom lenient combination index operations doc)
      (runFrom strict combination index operations doc) := by
  induction operations with
  | nil => intro index doc; exact Relaxes.refl _
  | cons op rest ih =>
    intro index doc
    exact ((relaxes_run hle combination op doc).mapError _).bind (ih (index + 1))

theorem relaxes_runAll (operations : List Operation) (combinations : List Combination) :
    ∀ doc : Tree, Relaxes (runAll lenient operations combinations doc)
      (runAll strict operations combinations doc) := by
  induction combinations with
  | nil => intro doc; exact Relaxes.refl _
  | cons c rest ih =>
    intro doc
    exact (relaxes_runFrom hle (some c) operations 1 doc).bind ih

end Operation

/-- **A patch makes under a less strict default what it makes under a stricter one**: for every
    combination of its matrix each operation finds the document as it found it there. -/
theorem Patch.relaxes_apply {lenient strict : Bool} (hle : lenient ≤ strict) (p : Patch)
    (doc : Tree) : Relaxes (p.apply lenient doc) (p.apply strict doc) := by
  have hflag : p.strict.getD lenient ≤ p.strict.getD strict := getD_le hle p.strict
  unfold apply
  refine (Relaxes.refl _).bind fun combinations => ?_
  cases combinations with
  | none => exact Operation.relaxes_runFrom hflag none p.operations 1 doc
  | some combinations => exact Operation.relaxes_runAll hflag p.operations combinations doc

/-! ## §4. Builds -/

namespace Build

variable {lenient strict : Bool} (hle : lenient ≤ strict)

include hle

theorem relaxes_applyPatches (path : DocPath) (patches : List Patch) :
    ∀ (index : Nat) (doc : Tree), Relaxes (applyPatches lenient path index patches doc)
      (applyPatches strict path index patches doc) := by
  induction patches with
  | nil => intro index doc; exact Relaxes.refl _
  | cons p rest ih =>
    intro index doc
    exact ((p.relaxes_apply hle doc).mapError _).bind (ih (index + 1))

theorem relaxes_finish (s : Source) (filter : ExportFilter) (doc : Tree) :
    Relaxes (finish lenient s filter doc) (finish strict s filter doc) :=
  (relaxes_applyPatches hle s.path _ 1 doc).bind fun _ => Relaxes.refl _

end Build

namespace Source

/-- **A build that succeeds takes the same steps under a less strict default**: it gives the same
    answer and leaves the same state behind, since everything that was built on the way has
    succeeded too. -/
theorem build_eq_of_stricter {lenient strict : Bool} (hle : lenient ≤ strict) :
    (∀ (s : Source) (state : BuildState), (s.build strict state).1.isOk = true →
      s.build lenient state = s.build strict state) ∧
    (∀ path imports doc state, (spliceImports strict path imports doc state).1.isOk = true →
      spliceImports lenient path imports doc state
        = spliceImports strict path imports doc state) := by
  refine building_induction
    (P := fun s state r => r.1.isOk = true → s.build lenient state = r)
    (Q := fun path imports doc state r => r.1.isOk = true →
      spliceImports lenient path imports doc state = r)
    ?memoized ?refused ?silent ?unspliced ?unfinished ?finished ?nil ?headFailed ?headSilent
    ?headBuilt ?headRaw
  case memoized =>
    intro s state result hbuilt _
    exact build_of_memo hbuilt
  case silent =>
    intro s state hnew hfilter _
    exact build_of_silent hnew hfilter
  case finished =>
    intro s state filter doc result next hnew hfilter ih hfinish _
    have hsplice : spliceImports lenient s.path s.imports s.data (state.noteStart s.path)
        = (.ok doc, next) := ih rfl
    have hlenient : Build.finish lenient s filter doc = .ok result :=
      Build.relaxes_finish hle s filter doc result hfinish
    exact build_of_finished hnew hfilter hsplice hlenient
  case nil =>
    intro path doc state _
    exact spliceImports_nil
  case headSilent =>
    intro path key source rest doc state mid r ih₁ ih₂ hok
    rw [spliceImports_of_silent (ih₁ rfl)]
    exact ih₂ hok
  case headBuilt =>
    intro path key source rest doc state value mid r ih₁ ih₂ hok
    rw [spliceImports_of_built (ih₁ rfl)]
    exact ih₂ hok
  case headRaw =>
    intro path key source rest doc state r ih hok
    rw [spliceImports_raw]
    exact ih hok
  -- what is left are the failures, which are not compared
  case refused => intro s state e _ _ hok; cases hok
  case unspliced => intro s state filter e next _ _ _ hok; cases hok
  case unfinished => intro s state filter doc e next _ _ _ _ hok; cases hok
  case headFailed => intro path key source rest doc state e next _ hok; cases hok

end Source

/-- **Strictness only checks.**  What a new strict builder makes of a document a new lenient one
    makes of it too, and what a patch makes of a document under the strict default it makes
    under the lenient one, whatever flags patches and operations carry themselves. -/
theorem strict_only_checks :
    (∀ (s : Source) (result : Option Tree),
      (s.build true .empty).1 = .ok result → (s.build false .empty).1 = .ok result) ∧
    (∀ (p : Patch) (doc result : Tree),
      p.apply true doc = .ok result → p.apply false doc = .ok result) := by
  have hle : false ≤ true := Bool.false_le true
  refine ⟨?_, ?_⟩
  · intro s result hbuild
    have hok : (s.build true .empty).1.isOk = true := by rw [hbuild]; rfl
    rw [(Source.build_eq_of_stricter hle).1 s .empty hok]
    exact hbuild
  · intro p doc result happly
    exact p.relaxes_apply hle doc result happly

/-! ### A theme that adds an accent from its palette -/

/-- A palette that exports its one color. -/
def swatches : Source :=
  .mk { root := ⟨true, []⟩, file := "swatches", path := ⟨true, [.name "swatches"]⟩ }
    (.obj [("red", .str "#f00")])
    (some { imports := [], patches := [], exports := some ⟨["red"], []⟩ }) []

/-- The patch of the theme, without a flag: it adds `${{ swatches.red }}` at `/accent`. -/
def accentPatch : Patch where
  name := none
  strict := none
  matrix := none
  operations :=
    [.write .add (.pointer "/accent") (.str "$\x7b\x7b swatches.red \x7d\x7d") none]

/-- A theme that imports the palette and has nothing of its own but the patch. -/
def accentTheme : Source :=
  .mk { root := ⟨true, []⟩, file := "theme", path := ⟨true, [.name "theme"]⟩ } (.obj [])
    (some { imports := [("swatches", .file "swatches")], patches := [accentPatch],
            exports := some ⟨["**"], []⟩ })
    [("swatches", swatches, true)]

/-- The palette, as it is spliced into the theme. -/
def splicedSwatches : List (String × Tree) := [("swatches", .obj [("red", .str "#f00")])]

/-- The theme builds strictly, since nothing stands at `/accent` yet, and so it builds without
    strictness too; and so does its patch alone. -/
theorem strict_only_checks_accent :
    (accentTheme.build true .empty).1 = .ok (some (.obj [("accent", .str "#f00")])) ∧
      (accentTheme.build false .empty).1 = .ok (some (.obj [("accent", .str "#f00")])) ∧
      accentPatch.apply false (.obj splicedSwatches)
        = .ok (.obj (splicedSwatches ++ [("accent", .str "#f00")])) := by
  have hbuild : (accentTheme.build true .empty).1
      = .ok (some (.obj [("accent", .str "#f00")])) := eq_ok_of_toOption (by decide +kernel)
  have happly : accentPatch.apply true (.obj splicedSwatches)
      = .ok (.obj (splicedSwatches ++ [("accent", .str "#f00")])) :=
    eq_ok_of_toOption (by decide +kernel)
  exact ⟨hbuild, strict_only_checks.1 _ _ hbuild, strict_only_checks.2 _ _ _ happly⟩

end DesignTokens
