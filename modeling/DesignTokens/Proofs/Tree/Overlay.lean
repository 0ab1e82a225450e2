/-
  DesignTokens.Proofs.Tree.Overlay — where the parts of a merged tree come from.

  A place inside objects is a list of keys.  What a merge leaves there follows from what the two
  trees hold there: where the upper tree holds something the merge holds it, laid over what the
  lower tree holds there; where it holds nothing, though nothing of it stands in the way further
  up, the lower tree shows through.  One key is a step, and a place is reached step by step.

  Main facts:
    * `field?_merge_of_some`, `field?_merge_of_none` — one key below a merge.
    * `under?_merge_of_some`, `under?_merge_of_none` — any number of keys below it.
    * `merge_overlays` — what a merge leaves, place by place.
-/
import DesignTokens.Proofs.Tree.Distinct
import DesignTokens.Proofs.Tree.Merge

namespace DesignTokens.Tree

/-! ## §1. Places inside objects -/

/-- The value of an object under a key; other trees have none. -/
def field? (key : String) : Tree → Option Tree
  | .obj fields => Entries.get? key fields
  | _ => none

/-- The tree that is reached by a list of keys, from object to object. -/
def under? : List String → Tree → Option Tree
  | [], t => some t
  | key :: rest, t => (t.field? key).bind (under? rest)

theorem under?_cons_eq_some_iff {key : String} {rest : List String} {t s : Tree} :
    t.under? (key :: rest) = some s ↔
      ∃ child, t.field? key = some child ∧ child.under? rest = some s :=
  Option.bind_eq_some_iff

/-- What an object holds writes no key twice, if the object does not. -/
theorem distinct_of_field? {key : String} {t child : Tree} (h : t.Distinct)
    (hchild : t.field? key = some child) : child.Distinct := by
  cases t with
  | obj fields => exact distinct_of_get? h hchild
  | null | bool | num | str | arr => cases hchild

theorem distinct_of_under? {keys : List String} {t s : Tree} (h : t.Distinct)
    (hs : t.under? keys = some s) : s.Distinct := by
  induction keys generalizing t with
  | nil =>
    obtain rfl : t = s := Option.some.inj hs
    exact h
  | cons key rest ih =>
    obtain ⟨child, hchild, hrest⟩ := under?_cons_eq_some_iff.1 hs
    exact ih (distinct_of_field? h hchild) hrest

/-! ## §2. One key below a merge -/

section Field

variable {key : String} {base top value : Tree}

/-- A value of the upper tree is laid over the lower tree's value under its key. -/
theorem field?_merge_of_some (h : top.Distinct) (hvalue : top.field? key = some value) :
    (base.merge top).field? key
      = some ((base.field? key).elim value fun old => old.merge value) := by
  cases top with
  | obj incoming =>
    cases base with
    | obj fields =>
      rw [merge_obj_obj]
      exact get?_mergeFields_of_mem (distinct_obj_iff.1 h).1 (Entries.mem_of_get? hvalue)
    | null | bool | num | str | arr => exact hvalue
  | null | bool | num | str | arr => cases hvalue

/-- Under a key that the upper object has not, the lower tree keeps what it holds. -/
theorem field?_merge_of_none (hobject : top.isObject = true) (hvalue : top.field? key = none) :
    (base.merge top).field? key = base.field? key := by
  cases top with
  | obj incoming =>
    cases base with
    | obj fields =>
      rw [merge_obj_obj]
      exact get?_mergeFields_of_not_mem (Entries.get?_eq_none_iff.1 hvalue)
    | null | bool | num | str | arr => exact hvalue
  | null | bool | num | str | arr => cases hobject

end Field

/-! ## §3. Any number of keys below a merge -/

section Under

variable {keys : List String} {base top value : Tree}

/-- **Where the upper tree holds something**, that is laid over what the lower tree holds
    there. -/
theorem under?_merge_of_some (h : top.Distinct) (hvalue : top.under? keys = some value) :
    (base.merge top).under? keys
      = some ((base.under? keys).elim value fun old => old.merge value) := by
  induction keys generalizing base top with
  | nil =>
    obtain rfl : top = value := Option.some.inj hvalue
    rfl
  | cons key rest ih =>
    obtain ⟨child, hchild, hrest⟩ := under?_cons_eq_some_iff.1 hvalue
    rw [under?, under?, field?_merge_of_some h hchild, Option.bind_some]
    cases base.field? key with
    | none => exact hrest
    | some old => exact ih (distinct_of_field? h hchild) hrest

/-- **Where the upper tree holds nothing** and only objects of it stand further up, the lower tree
    shows through. -/
theorem under?_merge_of_none (h : top.Distinct) (hvalue : top.under? keys = none)
    (habove : ∀ front value, front <+: keys → front ≠ keys → top.under? front = some value →
      value.isObject = true) :
    (base.merge top).under? keys = base.under? keys := by
  induction keys generalizing base top with
  | nil => cases hvalue
  | cons key rest ih =>
    have hobject : top.isObject = true :=
      habove [] top List.nil_prefix (List.cons_ne_nil key rest).symm rfl
    rw [under?, under?]
    cases hchild : top.field? key with
    | none => rw [field?_merge_of_none hobject hchild]
    | some child =>
      have hrest : child.under? rest = none := by
        rw [under?, hchild, Option.bind_some] at hvalue
        exact hvalue
      rw [field?_merge_of_some h hchild, Option.bind_some]
      cases base.field? key with
      | none => exact hrest
      | some old =>
        refine ih (distinct_of_field? h hchild) hrest fun front value hfront hne hin => ?_
        refine habove (key :: front) value (List.cons_prefix_cons.2 ⟨rfl, hfront⟩) ?_ ?_
        · exact fun heq => hne (List.cons.inj heq).2
        · exact under?_cons_eq_some_iff.2 ⟨child, hchild, hin⟩

end Under

/-! ## §4. What a merge leaves -/

/-- **What a merge leaves, place by place.**  A tree of the upper one that is no object stands
    where it stood, and where an object stood there is an object.  Where the upper tree holds
    nothing, and nothing but objects further up, there is what the lower tree holds.  Where both
    hold objects, the keys of the lower one come first and the new keys of the upper one behind
    them, in either case in the order in which they stood.  Merging again changes nothing.  The
    upper tree is one that maps can build. -/
theorem merge_overlays (base : Tree) {top : Tree} (h : top.Distinct) :
    (∀ keys : List String,
      (∀ value, top.under? keys = some value → value.isObject = false →
        (base.merge top).under? keys = some value) ∧
      (∀ value, top.under? keys = some value → value.isObject = true →
        ∃ merged, (base.merge top).under? keys = some merged ∧ merged.isObject = true) ∧
      (top.under? keys = none →
        (∀ front value, front <+: keys → front ≠ keys → top.under? front = some value →
          value.isObject = true) →
        (base.merge top).under? keys = base.under? keys) ∧
      (∀ fields incoming, base.under? keys = some (.obj fields) →
        top.under? keys = some (.obj incoming) →
        ∃ merged, (base.merge top).under? keys = some (.obj merged) ∧
          Entries.keys merged = Entries.keys fields
            ++ (Entries.keys incoming).filter fun key => key ∉ Entries.keys fields)) ∧
      (base.merge top).merge top = base.merge top := by
  refine ⟨fun keys => ⟨?scalar, ?object, under?_merge_of_none h, ?both⟩,
    merge_merge_self top h base⟩
  case scalar =>
    intro value hvalue hscalar
    rw [under?_merge_of_some h hvalue]
    cases base.under? keys with
    | none => rfl
    | some old => exact congrArg some (merge_of_not_isObject hscalar)
  case object =>
    intro value hvalue hobject
    refine ⟨_, under?_merge_of_some h hvalue, ?_⟩
    cases base.under? keys with
    | none => exact hobject
    | some old => exact (isObject_merge old value).trans hobject
  case both =>
    intro fields incoming hfields hincoming
    refine ⟨mergeFields fields incoming, ?_, ?_⟩
    · rw [under?_merge_of_some h hincoming, hfields]
      exact congrArg some (merge_obj_obj fields incoming)
    · exact keys_mergeFields (distinct_obj_iff.1 (distinct_of_under? h hincoming)).1

/-- Colours, one of them without a shade yet, and a space. -/
def lightSheet : Tree :=
  .obj [("color", .obj [("red", .str "#f00"), ("gray", .str "#888")]), ("space", .arr [.null])]

/-- A sheet that adds a colour, splits another one into shades and takes the spaces away. -/
def darkSheet : Tree :=
  .obj [("space", .null), ("color", .obj [("blue", .str "#00f"), ("gray", .obj [])])]

/-- The sheet's null is laid over an array and its object over a text; the red of the light one
    shows through, and the new colour goes behind the old ones. -/
theorem merge_overlays_sheets :
    darkSheet.Distinct ∧
      (lightSheet.merge darkSheet).under? ["space"] = some .null ∧
      (∃ merged, (lightSheet.merge darkSheet).under? ["color", "gray"] = some merged ∧
        merged.isObject = true) ∧
      (lightSheet.merge darkSheet).under? ["color", "red"] = some (.str "#f00") ∧
      (∃ merged, (lightSheet.merge darkSheet).under? ["color"] = some (.obj merged) ∧
        Entries.keys merged = ["red", "gray", "blue"]) ∧
      (lightSheet.merge darkSheet).merge darkSheet = lightSheet.merge darkSheet := by
  have hdistinct : darkSheet.Distinct := by decide
  obtain ⟨hplaces, hagain⟩ := merge_overlays lightSheet hdistinct
  obtain ⟨hscalar, -, -, -⟩ := hplaces ["space"]
  obtain ⟨-, hobject, -, -⟩ := hplaces ["color", "gray"]
  obtain ⟨-, -, hbelow, -⟩ := hplaces ["color", "red"]
  obtain ⟨-, -, -, hboth⟩ := hplaces ["color"]
  refine ⟨hdistinct, hscalar .null rfl rfl, hobject (.obj []) rfl rfl, ?_, hboth _ _ rfl rfl,
    hagain⟩
  refine (hbelow rfl fun front value hfront hne hin => ?_).trans rfl
  rcases List.prefix_cons_iff.1 hfront with rfl | ⟨rest, rfl, hrest⟩
  · obtain rfl : darkSheet = value := Option.some.inj hin
    rfl
  · rcases List.prefix_cons_iff.1 hrest with rfl | ⟨rest, rfl, hrest⟩
    · obtain rfl : Tree.obj _ = value := Option.some.inj hin
      rfl
    · -- the place itself does not stand above itself
      obtain rfl : rest = [] := List.prefix_nil.1 (List.cons_prefix_cons.1 hrest).2
      exact absurd rfl hne

end DesignTokens.Tree
