/-
  DesignTokens.Proofs.Template.Names — the names that a document reports.

  A document reports a name for each of its scalars, in document order, and the name is written
  key by key: a dot goes in front of every key but the first.  Whether a key is the first one is
  told by the text so far being empty.  An empty key at the top of the document leaves it empty,
  so the key below it is taken for a first one too, and its dot is missing.

  Reading goes by the dots alone.  So every scalar is looked up by its keys with dots between all of
  them, while the names that are reported are these only where nothing lies below an empty key at
  the top.  There no two scalars share a name, and whatever is suggested for a misspelled one is a
  name to be looked up.

  Main facts:
    * `placeText_eq_intercalate_iff` — when the text of a place has all of its dots.
    * `lookup_of_mem_leaves` — every scalar is looked up by the name of its place.
    * `names_eq_dotted_iff` — when these are the names that the document reports.
    * `names_read_back` — the two together, and what follows for suggestions.
-/
import DesignTokens.Proofs.Template.Dotted
import DesignTokens.Proofs.Tree.Places
import DesignTokens.Proofs.Tree.Tips

namespace DesignTokens

namespace Tree

/-! ## §1. Texts of places -/

/-- What is put behind an empty text counts as the first key. -/
theorem placeText_empty_cons (separator : String) (rest : List String) :
    placeText separator ("" :: rest) = placeText separator rest := rfl

/-- The text of a place is never longer than its keys with separators between all of them. -/
theorem length_placeText_le (separator : String) (place : List String) :
    (placeText separator place).length ≤ (separator.intercalate place).length := by
  induction place with
  | nil => exact Nat.le_refl _
  | cons key rest ih =>
    by_cases hkey : key = ""
    · subst hkey
      rw [placeText_empty_cons]
      cases rest with
      | nil => exact ih
      | cons next rest =>
        refine Nat.le_trans ih ?_
        rw [String.intercalate_cons_cons, String.length_append]
        omega
    · exact Nat.le_of_eq (congrArg String.length (placeText_eq_intercalate separator hkey rest))

/-- **The text of a place has all of its separators** unless an empty key comes first and others
    come behind it. -/
theorem placeText_eq_intercalate_iff {separator : String} (hseparator : separator ≠ "")
    (place : List String) : placeText separator place = separator.intercalate place ↔
      (place.head? = some "" → place = [""]) := by
  cases place with
  | nil => exact iff_of_true rfl fun h => nomatch h
  | cons key rest =>
    by_cases hkey : key = ""
    · subst hkey
      cases rest with
      | nil => exact iff_of_true rfl fun _ => rfl
      | cons next rest =>
        refine iff_of_false ?_ fun h => nomatch h rfl
        intro h
        -- one separator is missing, so the text is too short
        have hshort := length_placeText_le separator (next :: rest)
        have hlength := congrArg String.length h
        rw [placeText_empty_cons, String.intercalate_cons_cons, String.length_append,
          String.length_append] at hlength
        have hpos : 0 < separator.length := by
          rcases Nat.eq_zero_or_pos separator.length with hzero | hpos
          · exact absurd (String.length_eq_zero_iff.1 hzero) hseparator
          · exact hpos
        omega
    · refine iff_of_true (placeText_eq_intercalate separator hkey rest) ?_
      intro hhead
      exact absurd (Option.some.inj hhead) hkey

/-- No key of the tree has a dot, at any depth. -/
def Dotless (t : Tree) : Prop := t.Throughout fun s => ∀ key ∈ s.ownKeys, '.' ∉ key.toList

instance (t : Tree) : Decidable t.Dotless :=
  inferInstanceAs (Decidable (t.Throughout fun s => ∀ key ∈ s.ownKeys, '.' ∉ key.toList))

/-- Below an empty key at the top of the tree lies nothing. -/
def BareAtTop (t : Tree) : Prop := ∀ place ∈ t.places, place.head? = some "" → place = [""]

instance (t : Tree) : Decidable t.BareAtTop :=
  inferInstanceAs (Decidable (∀ place ∈ t.places, place.head? = some "" → place = [""]))

/-- The keys that lead anywhere have no dots either: they are keys of objects, or numerals. -/
theorem dot_not_mem_of_at? {place : List String} {t node : Tree} (h : t.Dotless)
    (hat : t.at? place = some node) : ∀ key ∈ place, '.' ∉ key.toList := by
  induction place generalizing t with
  | nil =>
    intro key hkey
    cases hkey
  | cons first rest ih =>
    rw [at?_cons] at hat
    obtain ⟨child, hchild, hbelow⟩ := Option.bind_eq_some_iff.1 hat
    refine List.forall_mem_cons.2 ⟨?_, ih (throughout_child? h hchild) hbelow⟩
    cases t with
    | null | bool | num | str => cases hchild
    | obj fields =>
      have hmem : first ∈ Entries.keys fields := by
        apply Decidable.byContradiction
        intro hmem
        have hnone : Entries.get? first fields = none := Entries.get?_eq_none_iff.2 hmem
        cases hnone.symm.trans hchild
      exact (throughout_obj_iff.1 h).1 first hmem
    | arr items =>
      obtain ⟨index, hkey, -, -⟩ := child?_arr_eq_some_iff.1 hchild
      rw [hkey]
      exact dot_not_mem_toString index

end Tree

/-! ## §2. Names of documents -/

namespace Variables

section Names

variable {doc : Tree}

/-- No leaf of an object is the object itself. -/
theorem place_ne_nil (hobject : doc.isObject = true) {leaf : Tree.Leaf} (h : leaf ∈ doc.leaves) :
    leaf.place ≠ [] := by
  obtain ⟨place, value⟩ := leaf
  intro hnil
  have hplace : place = [] := hnil
  subst hplace
  have hscalar : value.isContainer = false := Tree.not_isContainer_of_mem_leaves doc _ h
  rw [← Tree.eq_of_mem_leaves_nil h] at hscalar
  cases doc with
  | obj fields => cases hscalar
  | null | bool | num | str | arr => cases hobject

variable (hobject : doc.isObject = true) (hdistinct : doc.Distinct) (hsized : doc.Sized)
  (hdotless : doc.Dotless)

include hobject hdistinct hsized hdotless

/-- The name of a leaf is read as the place of the leaf. -/
theorem split_of_mem_leaves {leaf : Tree.Leaf} (h : leaf ∈ doc.leaves) :
    Text.splitString '.' (dotted leaf.place) = leaf.place :=
  split_dotted (place_ne_nil hobject h)
    (Tree.dot_not_mem_of_at? hdotless (Tree.at?_of_mem_leaves hdistinct hsized h))

/-- **Every scalar is looked up by the name of its place.** -/
theorem lookup_of_mem_leaves {leaf : Tree.Leaf} (h : leaf ∈ doc.leaves) :
    (ofDocument doc).lookup (dotted leaf.place) = .value leaf.value := by
  have hat : doc.at? leaf.place = some leaf.value := Tree.at?_of_mem_leaves hdistinct hsized h
  exact lookup_of_at? (place_ne_nil hobject h) (Tree.dot_not_mem_of_at? hdotless hat)
    (Tree.not_isContainer_of_mem_leaves doc leaf h) hat

/-- No two scalars have the same name. -/
theorem nodup_dotted : (doc.leaves.map fun leaf => dotted leaf.place).Nodup := by
  have hplaces : (doc.places.map dotted).Nodup := by
    refine (Tree.nodup_places doc hdistinct).map_on ?_
    intro front hfront back hback heq
    obtain ⟨leaf, hleaf, hplace⟩ := List.mem_map.1 hfront
    obtain ⟨other, hother, hplace'⟩ := List.mem_map.1 hback
    calc front
      _ = Text.splitString '.' (dotted front) := by
        rw [← hplace, split_of_mem_leaves hobject hdistinct hsized hdotless hleaf]
      _ = Text.splitString '.' (dotted back) := by rw [heq]
      _ = back := by
        rw [← hplace', split_of_mem_leaves hobject hdistinct hsized hdotless hother]
  rwa [Tree.places, List.map_map] at hplaces

end Names

/-- **A document reports the names of its places** exactly when nothing lies below an empty key at
    its top. -/
theorem names_eq_dotted_iff (doc : Tree) :
    (ofDocument doc).names = (doc.leaves.map fun leaf => dotted leaf.place) ↔ doc.BareAtTop := by
  show (doc.leaves.map fun leaf => Tree.placeText "." leaf.place) = _ ↔ _
  rw [List.map_inj_left]
  constructor
  · intro h place hplace
    obtain ⟨leaf, hleaf, heq⟩ := List.mem_map.1 hplace
    rw [← heq]
    exact (Tree.placeText_eq_intercalate_iff (by decide) leaf.place).1 (h leaf hleaf)
  · intro h leaf hleaf
    have hplace : leaf.place ∈ doc.places := List.mem_map.2 ⟨leaf, hleaf, rfl⟩
    exact (Tree.placeText_eq_intercalate_iff (by decide) leaf.place).2 (h leaf.place hplace)

/-- What is suggested for a name is reported. -/
theorem mem_names_of_notFound {vars : Variables} {query name : String} {suggestions : List String}
    (h : vars.notFound query = .notFound query suggestions) (hname : name ∈ suggestions) :
    name ∈ vars.names := by
  have hsuggestions : Similarity.suggestions query vars.names = suggestions :=
    (VariableError.notFound.inj h).2
  rw [← hsuggestions] at hname
  exact (Similarity.mem_ranked.1 hname).1

/-- **Names that are reported are read back.**  In an object without dots in its keys every scalar
    is looked up by its keys with dots between them.  These are the names that the object reports,
    one for each scalar and in document order, exactly when nothing lies below an empty key at its
    top; and then they are distinct, and whatever is suggested for a misspelled name is the name
    of a scalar. -/
theorem names_read_back {doc : Tree} (hobject : doc.isObject = true) (hdistinct : doc.Distinct)
    (hsized : doc.Sized) (hdotless : doc.Dotless) :
    (∀ leaf ∈ doc.leaves,
        (ofDocument doc).lookup (dotted leaf.place) = .value leaf.value) ∧
      ((ofDocument doc).names = (doc.leaves.map fun leaf => dotted leaf.place) ↔ doc.BareAtTop) ∧
      (doc.BareAtTop → (ofDocument doc).names.Nodup ∧
        ∀ query suggestions, (ofDocument doc).notFound query = .notFound query suggestions →
          ∀ name ∈ suggestions, ∃ leaf ∈ doc.leaves, name = dotted leaf.place ∧
            (ofDocument doc).lookup name = .value leaf.value) := by
  have hlookup : ∀ leaf ∈ doc.leaves,
      (ofDocument doc).lookup (dotted leaf.place) = .value leaf.value := by
    intro leaf hleaf
    exact lookup_of_mem_leaves hobject hdistinct hsized hdotless hleaf
  refine ⟨hlookup, names_eq_dotted_iff doc, ?_⟩
  intro hbare
  have hnames := (names_eq_dotted_iff doc).2 hbare
  refine ⟨?_, ?_⟩
  · rw [hnames]
    exact nodup_dotted hobject hdistinct hsized hdotless
  · intro query suggestions hfault name hname
    have hreported : name ∈ (ofDocument doc).names := mem_names_of_notFound hfault hname
    rw [hnames] at hreported
    obtain ⟨leaf, hleaf, heq⟩ := List.mem_map.1 hreported
    refine ⟨leaf, hleaf, heq.symm, ?_⟩
    rw [← heq]
    exact hlookup leaf hleaf

/-- Colors and sizes under unusual keys: an empty one at the top and below, numerals, and one with
    a blank. -/
def oddSheet : Tree :=
  .obj [("", .null), ("colors", .obj [("500", .str "#f00"), ("", .arr [.bool true, .obj []])]),
    ("line height", .arr [.ofInt 1, .arr [.ofInt 2]])]

/-- The names of its scalars, all of which are read back. -/
theorem names_read_back_oddSheet :
    oddSheet.BareAtTop ∧
      (ofDocument oddSheet).names
        = ["", "colors.500", "colors..0", "line height.0", "line height.1.0"] ∧
      (ofDocument oddSheet).names.Nodup ∧
      (ofDocument oddSheet).lookup "colors..0" = .value (.bool true) := by
  have hbare : oddSheet.BareAtTop := by decide +kernel
  have hobject : oddSheet.isObject = true := rfl
  obtain ⟨hlookup, hnames, hrest⟩ :=
    names_read_back hobject (by decide +kernel) (by decide +kernel) (by decide +kernel)
  have hleaf : (⟨["colors", "", "0"], .bool true⟩ : Tree.Leaf) ∈ oddSheet.leaves := by
    decide +kernel
  have hdotted : dotted ["colors", "", "0"] = "colors..0" := by decide +kernel
  refine ⟨hbare, ?_, (hrest hbare).1, ?_⟩
  · rw [hnames.2 hbare]
    decide +kernel
  · rw [← hdotted]
    exact hlookup _ hleaf

/-- Below an empty key at the top, a name is reported that nothing is looked up by.  The name of the
    scalar has a dot in front. -/
theorem names_below_empty_key :
    (ofDocument (.obj [("", .obj [("a", .ofInt 1)])])).names = ["a"] ∧
      (ofDocument (.obj [("", .obj [("a", .ofInt 1)])])).lookup "a" = .missing ∧
      (ofDocument (.obj [("", .obj [("a", .ofInt 1)])])).lookup ".a" = .value (.ofInt 1) := by
  decide +kernel

end Variables

end DesignTokens
