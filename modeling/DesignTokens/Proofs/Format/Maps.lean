/-
  DesignTokens.Proofs.Format.Maps — documents are read with distinct keys.

  The three formats write objects in three ways, and a repeated key means something else in each:
  the last value counts, or the text is refused.  None of them leaves a key twice.  A reader of
  containers is given the reader of what they hold, so each of them is taken care of under the
  assumption that what is inside has distinct keys; the depth of the nesting carries this through.

  A TOML table is put together piece by piece, and its fields may lead into other tables.  What
  is kept there is that the tree of the fields has distinct keys, as every change writes to a key
  or removes one.

  Main facts:
    * `Json.finds_value`, `Yaml.finds_tree`, `Toml.finds_value` — values of any depth.
    * `Toml.finds_changeAt` — a table that is changed somewhere inside.
    * `readsMaps_ofFiles` — documents from a table of files.
-/
import DesignTokens.Proofs.Source.Documents

namespace DesignTokens

open DesignTokens.Tree (distinct_arr_iff distinct_obj_iff distinct_obj_nil distinct_ofWrites
  distinct_of_scalar)
open Text (Read)

/-- Whatever is read from a text has a property. -/
def Text.ReadsOnly {α : Type} (read : Read α) (p : α → Prop) : Prop :=
  ∀ s, Finds (read s) fun found => p found.1

open Text (ReadsOnly)

/-! ## §1. JSON -/

namespace Json

theorem finds_scalar : ReadsOnly scalar? Tree.Distinct := by
  intro s
  unfold scalar?
  split
  · exact Finds.some (distinct_of_scalar rfl)
  · exact Finds.some (distinct_of_scalar rfl)
  · exact Finds.some (distinct_of_scalar rfl)
  · exact (Finds.trivial _).map fun _ _ => distinct_of_scalar rfl
  · refine (Finds.trivial _).bind fun ⟨whole, s⟩ _ => (Finds.trivial _).bind fun ⟨fraction, s⟩ _ => ?_
    refine (Finds.trivial _).bind fun ⟨exponent, s⟩ _ => (Finds.trivial _).bind fun value _ => ?_
    exact Finds.some (distinct_of_scalar rfl)

section Members

variable {item : Read Tree} (hitem : ReadsOnly item Tree.Distinct)

include hitem

theorem finds_moreItems (bound : Nat) :
    ReadsOnly (moreItems? item bound) fun items => ∀ t ∈ items, t.Distinct := by
  induction bound with
  | zero => exact fun s => Finds.none _
  | succ bound ih =>
    intro s
    unfold moreItems?
    split
    · exact Finds.some fun t ht => nomatch ht
    · refine (hitem _).bind fun ⟨first, rest⟩ hfirst => (ih rest).bind fun ⟨others, rest⟩ hothers => ?_
      exact Finds.some (List.forall_mem_cons.2 ⟨hfirst, hothers⟩)
    · exact Finds.none _

theorem finds_items : ReadsOnly (items? item) fun items => ∀ t ∈ items, t.Distinct := by
  intro s
  unfold items?
  split
  · exact Finds.some fun t ht => nomatch ht
  · refine (hitem _).bind fun ⟨first, rest⟩ hfirst => ?_
    refine (finds_moreItems hitem _ rest).bind fun ⟨others, rest⟩ hothers => ?_
    exact Finds.some (List.forall_mem_cons.2 ⟨hfirst, hothers⟩)

theorem finds_field : ReadsOnly (field? item) fun entry => entry.2.Distinct := by
  intro s
  unfold field?
  split
  · refine (Finds.trivial _).bind fun ⟨key, rest⟩ _ => ?_
    dsimp only
    split
    · exact (hitem _).bind fun ⟨value, rest⟩ hvalue => Finds.some hvalue
    · exact Finds.none _
  · exact Finds.none _

theorem finds_moreFields (bound : Nat) :
    ReadsOnly (moreFields? item bound) fun fields => ∀ entry ∈ fields, entry.2.Distinct := by
  induction bound with
  | zero => exact fun s => Finds.none _
  | succ bound ih =>
    intro s
    unfold moreFields?
    split
    · exact Finds.some fun entry hentry => nomatch hentry
    · refine (finds_field hitem _).bind fun ⟨first, rest⟩ hfirst => ?_
      refine (ih rest).bind fun ⟨others, rest⟩ hothers => ?_
      exact Finds.some (List.forall_mem_cons.2 ⟨hfirst, hothers⟩)
    · exact Finds.none _

theorem finds_fields :
    ReadsOnly (fields? item) fun fields => ∀ entry ∈ fields, entry.2.Distinct := by
  intro s
  unfold fields?
  split
  · exact Finds.some fun entry hentry => nomatch hentry
  · refine (finds_field hitem _).bind fun ⟨first, rest⟩ hfirst => ?_
    refine (finds_moreFields hitem _ rest).bind fun ⟨others, rest⟩ hothers => ?_
    exact Finds.some (List.forall_mem_cons.2 ⟨hfirst, hothers⟩)

end Members

theorem finds_value (depth : Nat) : ReadsOnly (value? depth) Tree.Distinct := by
  induction depth with
  | zero => exact fun s => finds_scalar s
  | succ depth ih =>
    intro s
    unfold value?
    split
    · exact finds_scalar _
    · next h => cases h; exact (finds_items ih _).map fun found hitems => distinct_arr_iff.2 hitems
    · next h => cases h; exact (finds_fields ih _).map fun found hfields => distinct_ofWrites hfields
    · exact finds_scalar _

theorem finds_parse (s : List Char) : Finds (parse? s) Tree.Distinct := by
  unfold parse?
  split
  · next t rest hvalue =>
    split
    · exact Finds.some (finds_value deepest _ _ hvalue)
    · exact Finds.none _
  · exact Finds.none _

end Json

/-! ## §2. YAML -/

namespace Yaml

theorem finds_integerTree (i : Int) : Finds (integerTree? i) Tree.Distinct := by
  unfold integerTree?
  split
  · exact Finds.some (distinct_of_scalar rfl)
  · exact Finds.none _

theorem distinct_doubleTree (x : Option Float) : (doubleTree x).Distinct := by
  cases x with
  | none => exact distinct_of_scalar rfl
  | some x => exact distinct_of_scalar rfl

theorem finds_plain (s : String) : Finds (plain? s) Tree.Distinct := by
  unfold plain?
  dsimp only
  split
  · exact Finds.some (distinct_of_scalar rfl)
  · split
    · exact Finds.some (distinct_of_scalar rfl)
    · exact finds_integerTree _
    · split
      · exact Finds.some (distinct_of_scalar rfl)
      · refine Finds.some ?_
        cases double? s.toList with
        | none => exact distinct_of_scalar rfl
        | some x => exact distinct_doubleTree x

theorem finds_tagged (tag s : String) : Finds (tagged? tag s) Tree.Distinct := by
  unfold tagged?
  split
  · exact (Finds.trivial _).map fun _ _ => distinct_of_scalar rfl
  · split
    · exact (Finds.trivial _).bind fun i _ => finds_integerTree i
    · split
      · exact (Finds.trivial _).map fun x _ => distinct_doubleTree x
      · split
        · split
          · exact Finds.some (distinct_of_scalar rfl)
          · exact Finds.none _
        · split
          · exact Finds.none _
          · exact Finds.some (distinct_of_scalar rfl)

theorem finds_scalarTree (p : Properties) (text : String) (plain : Bool) :
    Finds (scalarTree? p text plain) Tree.Distinct := by
  unfold scalarTree?
  split
  · exact finds_tagged _ _
  · split
    · exact finds_plain _
    · exact Finds.some (distinct_of_scalar rfl)

/-- Whatever a step makes that spends jumps has a property, however many there are. -/
def SpendsFor {α : Type} (step : Spend α) (p : α → Prop) : Prop :=
  ∀ jumps, Finds (step jumps) fun made => p made.1

namespace SpendsFor

variable {α β : Type} {step : Spend α} {p : α → Prop}

theorem pure {a : α} (h : p a) : SpendsFor (pure a) p := fun _ => Finds.some h

theorem failure (p : α → Prop) : SpendsFor failure p := fun _ => Finds.none _

theorem lift {found : Option α} (h : Finds found p) : SpendsFor (liftM found) p :=
  fun _ => h.bind fun _ ha => Finds.some ha

theorem bind {next : α → Spend β} {q : β → Prop} (h : SpendsFor step p)
    (hnext : ∀ a, p a → SpendsFor (next a) q) : SpendsFor (step >>= next) q :=
  fun jumps => (h jumps).bind fun ⟨a, left⟩ ha => hnext a ha left

theorem trivial (step : Spend α) : SpendsFor step fun _ => True := fun _ => fun _ _ => True.intro

theorem mapM {f : β → Spend α} (h : ∀ b, SpendsFor (f b) p) (bs : List β) :
    SpendsFor (bs.mapM f) fun made => ∀ a ∈ made, p a := by
  induction bs with
  | nil =>
    rw [List.mapM_nil]
    exact pure fun a ha => nomatch ha
  | cons b rest ih =>
    rw [List.mapM_cons]
    refine (h b).bind fun a ha => ih.bind fun others hothers => ?_
    exact pure (List.forall_mem_cons.2 ⟨ha, hothers⟩)

theorem items {item : Node → Spend Tree} (h : ∀ node, SpendsFor (item node) Tree.Distinct)
    (nodes : List Node) :
    SpendsFor (do return .arr (← nodes.mapM item)) Tree.Distinct :=
  (SpendsFor.mapM h nodes).bind fun _ hitems => pure (distinct_arr_iff.2 hitems)

theorem fields {field : Node × Node → Spend (String × Tree)}
    (h : ∀ nodes, SpendsFor (field nodes) fun entry => entry.2.Distinct)
    (nodes : List (Node × Node)) :
    SpendsFor (do return .obj (Entries.ofWrites (← nodes.mapM field))) Tree.Distinct :=
  (SpendsFor.mapM h nodes).bind fun _ hfields => pure (distinct_ofWrites hfields)

end SpendsFor

theorem finds_tree (anchors : Anchors) (depth : Nat) (node : Node) :
    SpendsFor (tree anchors depth node) Tree.Distinct := by
  induction depth generalizing node with
  | zero =>
    unfold tree
    refine (SpendsFor.trivial _).bind fun node _ => ?_
    split
    · exact SpendsFor.lift (finds_scalarTree _ _ _)
    · exact SpendsFor.lift (Finds.none _)
  | succ depth ih =>
    unfold tree
    refine (SpendsFor.trivial _).bind fun node _ => ?_
    split
    · exact SpendsFor.lift (finds_scalarTree _ _ _)
    · next items =>
      dsimp only
      split
      · exact (SpendsFor.failure fun _ => True).bind fun _ _ => SpendsFor.items ih items
      · exact SpendsFor.items ih items
    · next fields =>
      have hfield : ∀ nodes : Node × Node, SpendsFor (do
          let key ← key? (← target anchors nodes.1)
          return (key, ← tree anchors depth nodes.2)) fun entry => entry.2.Distinct :=
        fun nodes => (SpendsFor.trivial _).bind fun key _ => (SpendsFor.trivial _).bind fun key _ =>
          (ih nodes.2).bind fun value hvalue => SpendsFor.pure hvalue
      dsimp only
      split
      · exact (SpendsFor.failure fun _ => True).bind fun _ _ => SpendsFor.fields hfield fields
      · exact SpendsFor.fields hfield fields
    · exact SpendsFor.failure _

theorem finds_parse (bytes : ByteArray) : Finds (parse? bytes) Tree.Distinct := by
  unfold parse?
  refine (Finds.trivial _).bind fun text _ => ?_
  dsimp only
  split
  · exact Finds.none _
  · refine (Finds.trivial _).bind fun tokens _ => (Finds.trivial _).bind fun root _ => ?_
    exact (finds_tree root.anchored deepest root _).map fun _ htree => htree

end Yaml

/-! ## §3. TOML -/

namespace Toml

/-- The tree of some fields has distinct keys. -/
def WellKeyed (fields : Fields) : Prop := (Tree.obj (fieldTrees fields)).Distinct

theorem fieldTrees_eq_map (fields : Fields) :
    fieldTrees fields = fields.map fun entry => (entry.1, entry.2.tree) := by
  induction fields with
  | nil => rfl
  | cons entry rest ih => rw [fieldTrees, List.map_cons, ih]

theorem elementTrees_eq_map (elements : List Fields) :
    elementTrees elements = elements.map fun fields => .obj (fieldTrees fields) := by
  induction elements with
  | nil => rfl
  | cons fields rest ih => rw [elementTrees, List.map_cons, ih]

theorem wellKeyed_iff {fields : Fields} :
    WellKeyed fields ↔
      (Entries.keys fields).Nodup ∧ ∀ entry ∈ fields, entry.2.tree.Distinct := by
  rw [WellKeyed, distinct_obj_iff, fieldTrees_eq_map, Entries.keys, List.map_map, List.forall_mem_map]
  rfl

theorem distinct_tables_iff {elements : List Fields} :
    (Item.tables elements).tree.Distinct ↔ ∀ fields ∈ elements, WellKeyed fields := by
  rw [Item.tree, distinct_arr_iff, elementTrees_eq_map, List.forall_mem_map]
  rfl

theorem wellKeyed_nil : WellKeyed [] := distinct_obj_nil

/-! ### Tables -/

section Tables

variable {fields : Fields} {key : String} {item : Item}

theorem wellKeyed_put (h : WellKeyed fields) (hitem : item.tree.Distinct) :
    WellKeyed (Entries.put key item fields) := by
  obtain ⟨hkeys, hitems⟩ := wellKeyed_iff.1 h
  refine wellKeyed_iff.2 ⟨Entries.nodup_keys_put hkeys key item, fun entry hentry => ?_⟩
  rcases Entries.mem_put hentry with rfl | hold
  · exact hitem
  · exact hitems entry hold

theorem wellKeyed_erase (h : WellKeyed fields) (key : String) :
    WellKeyed (Entries.erase key fields) := by
  obtain ⟨hkeys, hitems⟩ := wellKeyed_iff.1 h
  exact wellKeyed_iff.2 ⟨Entries.nodup_keys_erase hkeys key,
    fun entry hentry => hitems entry (Entries.mem_of_mem_erase hentry)⟩

theorem distinct_of_get? (h : WellKeyed fields) (hitem : Entries.get? key fields = some item) :
    item.tree.Distinct :=
  (wellKeyed_iff.1 h).2 _ (Entries.mem_of_get? hitem)

/-- **A change somewhere inside of a table** keeps keys distinct, when it does so where it is
    made.  The induction is on the path; the table that a step leads into may be a new one. -/
theorem finds_changeAt {dotted : Bool} {change : Origin → Fields → Option Fields}
    (hchange : ∀ origin inner, WellKeyed inner → Finds (change origin inner) WellKeyed)
    (path : List String) (origin : Origin) (h : WellKeyed fields) :
    Finds (changeAt? dotted change path origin fields) WellKeyed := by
  induction path generalizing origin fields with
  | nil => exact hchange origin fields h
  | cons key path ih =>
    unfold changeAt?
    split
    · exact (ih _ wellKeyed_nil).bind fun inner hinner => Finds.some (wellKeyed_put h hinner)
    · exact Finds.none _
    · next origin inner hinner =>
      dsimp only
      split
      · exact Finds.none _
      · exact (ih origin (distinct_of_get? h hinner)).bind fun changed hchanged =>
          Finds.some (wellKeyed_put h hchanged)
    · next elements helements =>
      -- only the last of several tables is changed
      have hall : ∀ fields ∈ elements, WellKeyed fields :=
        distinct_tables_iff.1 (distinct_of_get? h helements)
      have hlast : Finds elements.getLast? WellKeyed :=
        fun last hlast => hall last (List.mem_of_getLast? hlast)
      refine hlast.bind fun last hlast => (ih .defined hlast).bind fun changed hchanged => ?_
      refine Finds.some (wellKeyed_put h (distinct_tables_iff.2 fun fields hfields => ?_))
      rcases List.mem_append.1 hfields with hold | hnew
      · exact hall fields (elements.dropLast_sublist.subset hold)
      · exact List.mem_singleton.1 hnew ▸ hchanged

theorem finds_insert (h : WellKeyed fields) {value : Tree} (hvalue : value.Distinct) :
    Finds (insert? key value fields) WellKeyed := by
  unfold insert?
  split
  · exact Finds.none _
  · exact Finds.some (wellKeyed_put h hvalue)

theorem finds_addField (h : WellKeyed fields) {field : Key × Tree} (hvalue : field.2.Distinct) :
    Finds (addField? fields field) WellKeyed := by
  refine finds_changeAt (fun origin inner hinner => ?_) field.1.path .defined h
  split
  · exact Finds.none _
  · exact finds_insert hinner hvalue

theorem finds_addFields (h : WellKeyed fields) {writes : List (Key × Tree)}
    (hwrites : ∀ field ∈ writes, field.2.Distinct) :
    Finds (writes.foldlM addField? fields) WellKeyed :=
  Finds.foldlM (fun _ hfields field hfield => finds_addField hfields (hwrites field hfield)) h

theorem finds_define (h : WellKeyed fields) :
    Finds (define? key fields) fun parts => WellKeyed parts.1 ∧ WellKeyed parts.2 := by
  unfold define?
  split
  · exact Finds.some ⟨wellKeyed_nil, h⟩
  · next inner hinner => exact Finds.some ⟨distinct_of_get? h hinner, wellKeyed_erase h key⟩
  · exact Finds.none _

theorem finds_addSection (h : WellKeyed fields) {s : Section}
    (hvalues : ∀ field ∈ s.fields, field.2.Distinct) :
    Finds (addSection? fields s) WellKeyed := by
  refine finds_changeAt (fun origin parent hparent => ?_) s.key.path .defined h
  dsimp only
  split
  · -- one table more behind those that the key has
    refine (finds_addFields wellKeyed_nil hvalues).bind fun added hadded => ?_
    split
    · refine Finds.some (wellKeyed_put hparent (distinct_tables_iff.2 ?_))
      exact List.forall_mem_singleton.2 hadded
    · next elements helements =>
      refine Finds.some (wellKeyed_put hparent (distinct_tables_iff.2 ?_))
      rw [List.forall_mem_append]
      exact ⟨distinct_tables_iff.1 (distinct_of_get? hparent helements),
        List.forall_mem_singleton.2 hadded⟩
    · exact Finds.none _
  · -- a table that longer headers have passed through gets its fields
    refine (finds_define hparent).bind fun parts hparts => ?_
    refine (finds_addFields hparts.1 hvalues).bind fun fields hfields => ?_
    exact Finds.some (wellKeyed_put hparts.2 hfields)

end Tables

theorem finds_document {fields : List (Key × Tree)} {others : List Section}
    (hfields : ∀ field ∈ fields, field.2.Distinct)
    (hothers : ∀ s ∈ others, ∀ field ∈ s.fields, field.2.Distinct) :
    Finds (document? fields others) Tree.Distinct := by
  unfold document?
  refine (finds_addFields wellKeyed_nil hfields).bind fun root hroot => ?_
  refine Finds.bind (p := WellKeyed) ?_ fun root hroot => Finds.some hroot
  exact Finds.foldlM (fun _ hroot s hs => finds_addSection hroot (hothers s hs)) hroot

/-! ### Values -/

theorem finds_integerTree (i : Int) : Finds (integerTree? i) Tree.Distinct := by
  unfold integerTree?
  split
  · exact Finds.some (distinct_of_scalar rfl)
  · exact Finds.none _

theorem finds_integer : ReadsOnly integer? Tree.Distinct := by
  intro s
  unfold integer?
  split
  · exact (Finds.trivial _).bind fun _ _ => (finds_integerTree _).bind fun _ h => Finds.some h
  · exact (Finds.trivial _).bind fun _ _ => (finds_integerTree _).bind fun _ h => Finds.some h

theorem finds_double : ReadsOnly double? Tree.Distinct := by
  intro s
  unfold double?
  split
  · dsimp only
    split
    · exact Finds.some (distinct_of_scalar rfl)
    · split
      · exact Finds.some (distinct_of_scalar rfl)
      · exact Finds.none _
  · unfold notFinite?
    split
    · exact Finds.some (distinct_of_scalar rfl)
    · exact Finds.some (distinct_of_scalar rfl)
    · exact Finds.none _

theorem distinct_momentTree (m : Moment) : (momentTree m).Distinct :=
  distinct_obj_iff.2 ⟨List.nodup_cons.2 ⟨List.not_mem_nil, List.nodup_nil⟩,
    List.forall_mem_singleton.2 (distinct_of_scalar rfl)⟩

theorem finds_scalar : ReadsOnly scalar? Tree.Distinct := by
  intro s
  unfold scalar?
  split
  · exact Finds.some (distinct_of_scalar rfl)
  · exact Finds.some (distinct_of_scalar rfl)
  · split
    · exact (Finds.trivial _).map fun _ _ => distinct_of_scalar rfl
    · split
      · exact Finds.some (distinct_momentTree _)
      · exact (finds_double _).orElse (finds_integer _)

section Members

variable {value : Read Tree} (hvalue : ReadsOnly value Tree.Distinct)

include hvalue

theorem finds_items (bound : Nat) :
    ReadsOnly (items? value bound) fun items => ∀ t ∈ items, t.Distinct := by
  induction bound with
  | zero => exact fun s => Finds.none _
  | succ bound ih =>
    intro s
    unfold items?
    split
    · exact Finds.some fun t ht => nomatch ht
    · refine (hvalue _).bind fun ⟨item, s⟩ hitem => ?_
      dsimp only
      split
      · exact Finds.some (List.forall_mem_singleton.2 hitem)
      · refine (ih _).bind fun ⟨others, rest⟩ hothers => ?_
        exact Finds.some (List.forall_mem_cons.2 ⟨hitem, hothers⟩)
      · exact Finds.none _

theorem finds_field : ReadsOnly (field? value) fun field => field.2.Distinct := by
  intro s
  unfold field?
  refine (Finds.trivial _).bind fun ⟨key, s⟩ _ => ?_
  dsimp only
  split
  · exact (hvalue _).bind fun ⟨tree, s⟩ htree => Finds.some htree
  · exact Finds.none _

theorem finds_inlineFields (bound : Nat) :
    ReadsOnly (inlineFields? value bound) fun fields => ∀ field ∈ fields, field.2.Distinct := by
  induction bound with
  | zero => exact fun s => Finds.none _
  | succ bound ih =>
    intro s
    unfold inlineFields?
    refine (finds_field hvalue s).bind fun ⟨first, s⟩ hfirst => ?_
    dsimp only
    split
    · exact Finds.some (List.forall_mem_singleton.2 hfirst)
    · refine (ih _).bind fun ⟨others, rest⟩ hothers => ?_
      exact Finds.some (List.forall_mem_cons.2 ⟨hfirst, hothers⟩)
    · exact Finds.none _

theorem finds_inlineTable : ReadsOnly (inlineTable? value) Tree.Distinct := by
  intro s
  unfold inlineTable?
  have htable : ∀ writes : List (Key × Tree), (∀ field ∈ writes, field.2.Distinct) →
      ∀ rest : List Char, Finds (do
        let fields ← writes.foldlM addField? []
        return (Tree.obj (fieldTrees fields), rest)) fun found => found.1.Distinct :=
    fun writes hwrites rest =>
      (finds_addFields wellKeyed_nil hwrites).bind fun fields hfields => Finds.some hfields
  dsimp only
  split
  · exact htable [] (fun field hfield => nomatch hfield) _
  · exact (finds_inlineFields hvalue _ s).bind fun ⟨writes, rest⟩ hwrites =>
      htable writes hwrites rest

end Members

theorem finds_value (depth : Nat) : ReadsOnly (value? depth) Tree.Distinct := by
  induction depth with
  | zero => exact fun s => finds_scalar s
  | succ depth ih =>
    intro s
    unfold value?
    split
    · exact finds_scalar _
    · next h => cases h; exact (finds_items ih _ _).map fun _ hitems => distinct_arr_iff.2 hitems
    · next h => cases h; exact finds_inlineTable ih _
    · exact finds_scalar _

/-! ### Lines -/

/-- The value of a line has distinct keys, if it has one. -/
def Line.Distinct : Line → Prop
  | .field _ value => value.Distinct
  | .header _ _ => True

theorem finds_header (s : List Char) : Finds (header? s) fun found => found.1.Distinct := by
  unfold header?
  split
  · refine (Finds.trivial _).bind fun ⟨key, s⟩ _ => ?_
    dsimp only
    split
    · exact Finds.some trivial
    · exact Finds.none _
  · refine (Finds.trivial _).bind fun ⟨key, s⟩ _ => ?_
    dsimp only
    split
    · exact Finds.some trivial
    · exact Finds.none _

theorem finds_lines (bound : Nat) (s : List Char) :
    Finds (lines? bound s) fun lines => ∀ line ∈ lines, line.Distinct := by
  induction bound generalizing s with
  | zero => exact Finds.none _
  | succ bound ih =>
    unfold lines?
    split
    · exact Finds.some fun line hline => nomatch hline
    · have hothers : ∀ line : Line, line.Distinct → ∀ rest, Finds (do
          let others ← lines? bound (← lineEnd? rest)
          return line :: others) fun lines => ∀ line ∈ lines, line.Distinct := by
        intro line hline rest
        refine (Finds.trivial _).bind fun rest _ => (ih rest).bind fun others hothers => ?_
        exact Finds.some (List.forall_mem_cons.2 ⟨hline, hothers⟩)
      dsimp only
      split
      · exact (finds_header _).bind fun ⟨line, rest⟩ hline => hothers line hline rest
      · refine Finds.bind (p := fun found => found.1.Distinct) ?_
          fun ⟨line, rest⟩ hline => hothers line hline rest
        exact (finds_field (finds_value _) _).map fun _ hvalue => hvalue

theorem distinct_sections {lines : List Line} (h : ∀ line ∈ lines, line.Distinct) :
    (∀ field ∈ (sections lines).1, field.2.Distinct) ∧
      ∀ s ∈ (sections lines).2, ∀ field ∈ s.fields, field.2.Distinct := by
  induction lines with
  | nil => exact ⟨fun field hfield => (nomatch hfield), fun s hs => nomatch hs⟩
  | cons line rest ih =>
    obtain ⟨hline, hrest⟩ := List.forall_mem_cons.1 h
    obtain ⟨hfields, hothers⟩ := ih hrest
    cases line with
    | field key value => exact ⟨List.forall_mem_cons.2 ⟨hline, hfields⟩, hothers⟩
    | header key repeated =>
      exact ⟨fun field hfield => (nomatch hfield), List.forall_mem_cons.2 ⟨hfields, hothers⟩⟩

theorem finds_parse (s : List Char) : Finds (parse? s) Tree.Distinct := by
  unfold parse?
  refine (finds_lines _ _).bind fun lines hlines => ?_
  obtain ⟨hfields, hothers⟩ := distinct_sections hlines
  exact finds_document hfields hothers

end Toml

/-! ## §4. Documents -/

/-- **A document is read with distinct keys**, in whichever format. -/
theorem Format.makes_parse (bytes : ByteArray) (path : DocPath) :
    Makes (parse bytes path) Tree.Distinct := by
  unfold parse
  dsimp only
  split
  · have hjson : Finds ((String.fromUTF8? bytes).bind fun text => Json.parse? text.toList)
        Tree.Distinct :=
      (Finds.trivial _).bind fun text _ => Json.finds_parse text.toList
    split
    · next t ht => exact Makes.ok (hjson t ht)
    · exact Makes.error _ _
  · split
    · split
      · next t ht => exact Makes.ok (Yaml.finds_parse bytes t ht)
      · exact Makes.error _ _
    · split
      · split
        · exact Makes.error _ _
        · next text _ =>
          split
          · next t ht => exact Makes.ok (Toml.finds_parse text.toList t ht)
          · exact Makes.error _ _
      · exact Makes.error _ _

/-- **A table of files is read as maps.** -/
theorem readsMaps_ofFiles (files : List (DocPath × ByteArray)) :
    (SourceIo.ofFiles files).ReadsMaps :=
  fun bytes path => Format.makes_parse bytes path

end DesignTokens
