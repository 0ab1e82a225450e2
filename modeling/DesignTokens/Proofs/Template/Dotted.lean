/-
  DesignTokens.Proofs.Template.Dotted — the names that templates have for places.

  A template names a place of a document by the keys that lead there, with dots between them, and
  a pointer names it by segments.  Both ask an array for a numeral, but a template is the more
  lenient reader: it takes a plus sign and leading zeros, and knows no dash.  So wherever the
  segments of a pointer lead, the same segments joined by dots lead a template, if no dot is in
  them that would be read as a joint.

  A dash that appended to an array does not name what it appended.  The name has the position of
  the new item in its place, which is the length that the array had before.

  Main facts:
    * `descend?_of_at?` — what lies at a place is found below its keys.
    * `lookup_of_at?` — a scalar at a place is looked up by the dotted name of the place.
    * `lookup_of_add` — what an edit adds to a document a template reads.
-/
import DesignTokens.Proofs.Edit.Frame
import DesignTokens.Template.Variables

namespace DesignTokens

open Edit (positionBound)

/-! ## §1. Numerals -/

/-- No numeral has a dot. -/
theorem dot_not_mem_toString (n : Nat) : '.' ∉ (toString n).toList := by
  intro hmem
  rw [Edit.toList_eq_toDigits_iff.2 rfl] at hmem
  have hdigit : '.'.isDigit = true := Edit.isDigit_of_mem_toDigits hmem
  exact absurd hdigit (by decide)

namespace Variables

/-- The numeral of a position is read as the position. -/
theorem arrayIndex?_toString {n : Nat} (h : n < positionBound) :
    arrayIndex? (toString n).toList = some n := by
  rw [Edit.toList_eq_toDigits_iff.2 rfl]
  have hdigits : ∀ c ∈ Nat.toDigits 10 n, c.isDigit = true := by
    intro c hc
    exact Edit.isDigit_of_mem_toDigits hc
  have hvalue : Number.numeralValue 10 (Nat.toDigits 10 n) = n := Edit.numeralValue_toDigits n
  cases hchars : Nat.toDigits 10 n with
  | nil => exact absurd hchars (Edit.toDigits_ne_nil n)
  | cons c digits =>
    rw [hchars] at hdigits hvalue
    -- a digit is no plus sign, so all characters are taken for digits
    have hplus : c ≠ '+' := by
      intro hc
      have hdigit : c.isDigit = true := hdigits c List.mem_cons_self
      rw [hc] at hdigit
      exact absurd hdigit (by decide)
    have hall : (c :: digits).all Char.isDigit = true := List.all_eq_true.2 hdigits
    unfold arrayIndex?
    split
    · next heq => exact absurd (List.cons.inj heq).1 hplus
    · simp only [hall, hvalue, List.isEmpty_cons, Bool.not_true, Bool.or_false,
        Bool.false_eq_true, if_false]
      exact if_pos h

/-! ## §2. Places -/

/-- **What lies at a place is found below its keys.** -/
theorem descend?_of_at? {place : List String} {t node : Tree} (h : t.at? place = some node) :
    descend? place t = some node := by
  induction place generalizing t with
  | nil => exact h
  | cons key rest ih =>
    rw [Tree.at?_cons] at h
    obtain ⟨child, hchild, hbelow⟩ := Option.bind_eq_some_iff.1 h
    cases t with
    | null | bool | num | str => cases hchild
    | obj fields =>
      have hfield : Entries.get? key fields = some child := hchild
      rw [descend?, hfield]
      exact ih hbelow
    | arr items =>
      obtain ⟨index, hkey, hbound, hitem⟩ := Tree.child?_arr_eq_some_iff.1 hchild
      rw [descend?, hkey, arrayIndex?_toString hbound]
      show (items[index]?).bind (descend? rest) = some node
      rw [hitem]
      exact ih hbelow

/-- The name of a place: its keys with dots between them. -/
def dotted (place : List String) : String := ".".intercalate place

/-- A name is read as the keys that it was joined from, if none of them has a dot. -/
theorem split_dotted {place : List String} (hne : place ≠ [])
    (hdots : ∀ key ∈ place, '.' ∉ key.toList) : Text.splitString '.' (dotted place) = place :=
  Text.splitString_intercalate rfl hne hdots

/-- **A scalar at a place is looked up by the name of the place.** -/
theorem lookup_of_at? {place : List String} {doc value : Tree} (hne : place ≠ [])
    (hdots : ∀ key ∈ place, '.' ∉ key.toList) (hscalar : value.isContainer = false)
    (h : doc.at? place = some value) : (ofDocument doc).lookup (dotted place) = .value value := by
  have hfound : descend? (Text.splitString '.' (dotted place)) doc = some value := by
    rw [split_dotted hne hdots]
    exact descend?_of_at? h
  unfold ofDocument
  dsimp only
  rw [hfound]
  show (if value.isContainer then Lookup.missing else .value value) = .value value
  rw [hscalar]
  rfl

end Variables

/-! ## §3. What an edit adds -/

namespace Tree

/-- Anchoring brings no dots: where a segment is replaced, a numeral stands in its place. -/
theorem dot_not_mem_anchored {segments : List String} (h : ∀ s ∈ segments, '.' ∉ s.toList)
    (t : Tree) : ∀ s ∈ anchored segments t, '.' ∉ s.toList := by
  induction segments generalizing t with
  | nil =>
    intro s hs
    cases hs
  | cons segment rest ih =>
    obtain ⟨hsegment, hrest⟩ := List.forall_mem_cons.1 h
    rw [anchored_cons]
    refine List.forall_mem_cons.2 ⟨?_, ih hrest _⟩
    unfold anchor
    split
    · split
      · exact dot_not_mem_toString _
      · exact hsegment
    · exact hsegment

end Tree

namespace Edit

/-- **What an edit adds to a document a template reads.**  A scalar that is added at segments
    without a dot is looked up by these segments joined by dots, every dash that met an array
    being replaced by the length that the array had.  That the path is roomy says of these arrays
    that their lengths are 64-bit numbers. -/
theorem lookup_of_add {path : Pointer} {doc doc' value : Tree} {flag : Option Bool}
    {strictByDefault : Bool} (hpath : path.isRoot = false)
    (hdots : ∀ s ∈ path.segments, '.' ∉ s.toList) (hscalar : value.isContainer = false)
    (hroom : Roomy path.segments doc)
    (h : (Edit.write .add path value flag).apply strictByDefault doc = .ok doc') :
    (Variables.ofDocument doc').lookup (Variables.dotted (anchoredPath path doc).segments)
      = .value value := by
  obtain ⟨segments⟩ := path
  cases segments with
  | nil => cases hpath
  | cons segment rest =>
    have hwritten : Written (left .add value) (Tree.anchored (segment :: rest) doc) doc doc' :=
      written_of_writeBelow h hroom
    have hleft : ∀ old, left .add value old = value := by
      intro old
      cases old with
      | none => rfl
      | some old => rfl
    have hat : doc'.at? (Tree.anchored (segment :: rest) doc) = some value := by
      rw [at?_of_written hwritten, hleft]
    exact Variables.lookup_of_at? (ne_nil_of_written hwritten)
      (Tree.dot_not_mem_anchored hdots doc) hscalar hat

/-- A null that is added behind the one color of the palette, under a name. -/
theorem lookup_of_add_palette :
    ∃ doc', (Edit.write .add nextName .null none).apply false palette = .ok doc' ∧
      (Variables.ofDocument doc').lookup "colors.1.name" = .value .null := by
  have hadd : (Edit.write .add nextName .null none).apply false palette
      = .ok (.obj [("colors", .arr [.str "red", .obj [("name", .null)]]), ("size", .ofInt 4)]) :=
    rfl
  have hname : Variables.dotted (anchoredPath nextName palette).segments = "colors.1.name" := by
    decide +kernel
  refine ⟨_, hadd, ?_⟩
  rw [← hname]
  exact lookup_of_add (by decide) (by decide +kernel) rfl roomy_palette hadd

end Edit

end DesignTokens
