/-
  DesignTokens.Proofs.Directive.Values — the values in directives.

  Directives are read from a part of a document, and the values that their operations write are
  parts of it.  So a document with distinct keys declares operations whose values have distinct
  keys, and imports under distinct keys.

  Main facts:
    * `makes_elements` — what is read from the elements of a list.
    * `makes_operation` — what an operation writes.
    * `makes_decode` — what the patches of directives write, and how imports are named.
-/
import DesignTokens.Directive.Decode
import DesignTokens.Proofs.Operation.Shape

namespace DesignTokens

open DesignTokens.Tree (distinct_arr_iff distinct_obj_iff)

/-- The values that a patch writes have distinct keys. -/
def Patch.Distinct (p : Patch) : Prop := ∀ op ∈ p.operations, op.Distinct

namespace Directive

/-! ## §1. Lists -/

section Elements

variable {α : Type} {element : Tree → Except DecodeError α} {p : α → Prop}

theorem makes_elements (helement : ∀ t : Tree, t.Distinct → Makes (element t) p)
    {items : List Tree} (hitems : ∀ item ∈ items, item.Distinct) :
    Makes (elements element items) fun read => ∀ a ∈ read, p a := by
  induction items with
  | nil => exact Makes.ok fun a ha => nomatch ha
  | cons item rest ih =>
    obtain ⟨hitem, hrest⟩ := List.forall_mem_cons.1 hitems
    refine (helement item hitem).bind fun a ha => (ih hrest).bind fun others hothers => ?_
    exact Makes.ok (List.forall_mem_cons.2 ⟨ha, hothers⟩)

theorem makes_sequence (helement : ∀ t : Tree, t.Distinct → Makes (element t) p) {t : Tree}
    (ht : t.Distinct) : Makes (sequence element t) fun read => ∀ a ∈ read, p a := by
  cases t with
  | arr items => exact makes_elements helement (distinct_arr_iff.1 ht)
  | null | bool | num | str | obj => exact Makes.error _ _

/-- A record that is written as a list has the items of the list for its values. -/
theorem distinct_zip {names : List String} {items : List Tree}
    (hitems : ∀ item ∈ items, item.Distinct) : ∀ entry ∈ names.zip items, entry.2.Distinct :=
  fun _ hentry => hitems _ (List.of_mem_zip hentry).2

/-- What holds of a record while its fields are read one after the other. -/
theorem makes_fields {σ : Type} {field : σ → String → Tree → Except DecodeError σ}
    {fields : σ → List (String × Tree) → Except DecodeError σ} {p : σ → Prop}
    (hnil : ∀ draft, fields draft [] = .ok draft)
    (hcons : ∀ draft name t rest,
      fields draft ((name, t) :: rest) = field draft name t >>= fun draft => fields draft rest)
    (hfield : ∀ draft name t, p draft → t.Distinct → Makes (field draft name t) p)
    {entries : List (String × Tree)} (hentries : ∀ entry ∈ entries, entry.2.Distinct) {draft : σ}
    (hdraft : p draft) : Makes (fields draft entries) p := by
  induction entries generalizing draft with
  | nil =>
    rw [hnil]
    exact Makes.ok hdraft
  | cons entry rest ih =>
    obtain ⟨hvalue, hrest⟩ := List.forall_mem_cons.1 hentries
    rw [hcons]
    exact (hfield draft entry.1 entry.2 hdraft hvalue).bind fun next hnext => ih hrest hnext

end Elements

/-! ## §2. Operations -/

/-- The value that has been read for an operation, if one has, has distinct keys. -/
def OperationDraft.Distinct (draft : OperationDraft) : Prop :=
  ∀ value ∈ draft.value, value.Distinct

theorem makes_operationField (mode : Mode) {draft : OperationDraft} (hdraft : draft.Distinct)
    (name : String) {t : Tree} (ht : t.Distinct) :
    Makes (operationField mode draft name t) OperationDraft.Distinct := by
  unfold operationField
  split
  · exact Makes.ok hdraft
  · split
    · exact (Makes.trivial _).bind fun path _ => Makes.ok hdraft
    · split
      · exact (Makes.trivial _).bind fun source _ => Makes.ok hdraft
      · split
        · refine Makes.ok fun value hvalue => ?_
          obtain rfl : t = value := Option.some.inj hvalue
          exact ht
        · exact (Makes.trivial _).bind fun flag _ => Makes.ok hdraft

theorem makes_operationFields (mode : Mode) {fields : List (String × Tree)}
    (hfields : ∀ entry ∈ fields, entry.2.Distinct) :
    Makes (operationFields mode .empty fields) OperationDraft.Distinct :=
  makes_fields (fun _ => rfl) (fun _ _ _ _ => rfl)
    (fun _ name _ hdraft ht => makes_operationField mode hdraft name ht) hfields
    fun _ hvalue => nomatch hvalue

theorem OperationDraft.makes_finish (mode : Mode) {draft : OperationDraft}
    (hdraft : draft.Distinct) (missing : String → DecodeError) :
    Makes (draft.finish mode missing) Operation.Distinct := by
  unfold finish
  cases mode with
  | write mode =>
    dsimp only
    split
    · exact Makes.error _ _
    · exact Makes.error _ _
    · next path value _ hvalue => exact Makes.ok (hdraft value hvalue)
  | transfer mode =>
    dsimp only
    split
    · exact Makes.error _ _
    · exact Makes.error _ _
    · exact Makes.ok True.intro
  | remove =>
    dsimp only
    split
    · exact Makes.error _ _
    · exact Makes.ok True.intro

/-- **What an operation writes** is a part of the tree that it is read from. -/
theorem makes_operation {t : Tree} (ht : t.Distinct) : Makes (operation t) Operation.Distinct := by
  unfold operation
  split
  · next fields =>
    split
    · exact Makes.error _ _
    · refine (Makes.trivial _).bind fun mode _ => ?_
      refine (makes_operationFields mode (distinct_obj_iff.1 ht).2).bind
        fun draft hdraft => ?_
      exact OperationDraft.makes_finish mode hdraft _
  · exact Makes.error _ _
  · next name items =>
    -- an operation as a list: its name, and the values of its fields in order
    have hitems : ∀ item ∈ items, item.Distinct :=
      fun item hitem => distinct_arr_iff.1 ht item (List.mem_cons_of_mem _ hitem)
    refine (Makes.trivial _).bind fun mode _ => ?_
    refine (makes_operationFields mode (distinct_zip hitems)).bind fun draft hdraft => ?_
    refine (OperationDraft.makes_finish mode hdraft _).bind fun op hop => ?_
    split
    · exact Makes.error _ _
    · exact Makes.ok hop
  · exact Makes.error _ _

/-! ## §3. Patches -/

/-- The operations that have been read for a patch, if they have, write values with distinct
    keys. -/
def PatchDraft.Distinct (draft : PatchDraft) : Prop :=
  ∀ operations ∈ draft.operations, ∀ op ∈ operations, op.Distinct

theorem makes_patchField {draft : PatchDraft} (hdraft : draft.Distinct) (name : String)
    {t : Tree} (ht : t.Distinct) : Makes (patchField draft name t) PatchDraft.Distinct := by
  unfold patchField
  split
  · exact (Makes.trivial _).bind fun name _ => Makes.ok hdraft
  · split
    · exact (Makes.trivial _).bind fun flag _ => Makes.ok hdraft
    · split
      · exact (Makes.trivial _).bind fun matrix _ => Makes.ok hdraft
      · split
        · refine (makes_sequence (fun _ => makes_operation) ht).bind fun read hread => ?_
          refine Makes.ok fun operations hoperations => ?_
          obtain rfl : read = operations := Option.some.inj hoperations
          exact hread
        · exact Makes.error _ _

theorem makes_patchFields {fields : List (String × Tree)}
    (hfields : ∀ entry ∈ fields, entry.2.Distinct) :
    Makes (patchFields .empty fields) PatchDraft.Distinct :=
  makes_fields (fun _ => rfl) (fun _ _ _ _ => rfl)
    (fun _ name _ hdraft ht => makes_patchField hdraft name ht) hfields
    fun _ hoperations => nomatch hoperations

theorem PatchDraft.makes_finish {draft : PatchDraft} (hdraft : draft.Distinct)
    (missing : DecodeError) : Makes (draft.finish missing) Patch.Distinct := by
  unfold finish
  split
  · exact Makes.error _ _
  · next operations hoperations => exact Makes.ok (hdraft operations hoperations)

theorem makes_patch {t : Tree} (ht : t.Distinct) : Makes (patch t) Patch.Distinct := by
  unfold patch
  split
  · refine (makes_patchFields (distinct_obj_iff.1 ht).2).bind fun draft hdraft => ?_
    exact PatchDraft.makes_finish hdraft _
  · refine (makes_patchFields (distinct_zip (distinct_arr_iff.1 ht))).bind
      fun draft hdraft => ?_
    refine (PatchDraft.makes_finish hdraft _).bind fun p hp => ?_
    split
    · exact Makes.error _ _
    · exact Makes.ok hp
  · exact Makes.error _ _

/-! ## §4. Directives -/

/-- The entries of an object whose keys are free keep their keys. -/
theorem makes_values {α : Type} {value : Tree → Except DecodeError α}
    (fields : List (String × Tree)) :
    Makes (values value fields) fun read => Entries.keys read = Entries.keys fields := by
  induction fields with
  | nil => exact Makes.ok rfl
  | cons entry rest ih =>
    refine (Makes.trivial _).bind fun a _ => ih.bind fun others hothers => ?_
    exact Makes.ok (congrArg (entry.1 :: ·) hothers)

theorem makes_map {α : Type} {value : Tree → Except DecodeError α} {t : Tree} (ht : t.Distinct) :
    Makes (map value t) fun read => (Entries.keys read).Nodup := by
  cases t with
  | obj fields =>
    refine (makes_values fields).mono fun read hread => ?_
    rw [hread]
    exact (distinct_obj_iff.1 ht).1
  | null | bool | num | str | arr => exact Makes.error _ _

/-- What holds of directives that have been read. -/
structure Sound (d : Directives) : Prop where
  /-- No two imports are declared under one key. -/
  imports : (Entries.keys d.imports).Nodup
  patches : ∀ p ∈ d.patches, p.Distinct

theorem makes_field {d : Directives} (hd : Sound d) (name : String) {t : Tree}
    (ht : t.Distinct) : Makes (field d name t) Sound := by
  unfold field
  split
  · exact (makes_map ht).bind fun imports himports => Makes.ok ⟨himports, hd.patches⟩
  · split
    · refine (makes_sequence (fun _ => makes_patch) ht).bind fun read hread => ?_
      exact Makes.ok ⟨hd.imports, hread⟩
    · split
      · exact (Makes.trivial _).bind fun exports _ => Makes.ok ⟨hd.imports, hd.patches⟩
      · exact Makes.error _ _

/-- **What the patches of directives write** is a part of the tree that they are read from, and
    the imports have the keys of an object of it. -/
theorem makes_decode {t : Tree} (ht : t.Distinct) : Makes (decode t) Sound := by
  have hempty : Sound Directives.empty := ⟨List.nodup_nil, fun _ hp => nomatch hp⟩
  have hfields : ∀ {entries : List (String × Tree)}, (∀ entry ∈ entries, entry.2.Distinct) →
      Makes (fields .empty entries) Sound :=
    fun hentries => makes_fields (fun _ => rfl) (fun _ _ _ _ => rfl)
      (fun _ name _ hd ht => makes_field hd name ht) hentries hempty
  unfold decode
  split
  · exact hfields (distinct_obj_iff.1 ht).2
  · refine (hfields (distinct_zip (distinct_arr_iff.1 ht))).bind fun d hd => ?_
    split
    · exact Makes.error _ _
    · exact Makes.ok hd
  · exact Makes.error _ _

end Directive

end DesignTokens
