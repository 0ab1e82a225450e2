/-
  DesignTokens.Proofs.Directive.RoundTrip — directives are read as they are written.

  Each type of the directives is read back from its own tree, the parts before the whole.  What
  has to be seen in each place is that the tree is taken for the right thing: no form that is
  tried before fits it, no field of it is unknown, a field that was left out has the value that
  it was left out for, and a null stands for nothing only where nothing was meant.

  Records are read field by field into a draft.  The invariant is that the draft holds what the
  fields so far were written from.

  Main facts:
    * `sequence_encode`, `map_encode` — lists and maps keep their order.
    * `operation_encode` — an operation is read back, whatever value it writes.
    * `decode_encode` — directives are read back.
    * `split_around_encode` — a document is taken apart into its data and its directives.
-/
import DesignTokens.Directive.Encode
import DesignTokens.Document

namespace DesignTokens

namespace Directive

/-! ## §1. Lists and maps -/

section Parts

variable {α : Type} {encode : α → Tree} {read : Tree → Except DecodeError α}

theorem elements_encode (hread : ∀ a, read (encode a) = .ok a) (as : List α) :
    elements read (as.map encode) = .ok as := by
  induction as with
  | nil => rfl
  | cons a rest ih =>
    rw [List.map_cons, elements, hread, ih]
    rfl

/-- A list is read back in its order. -/
theorem sequence_encode (hread : ∀ a, read (encode a) = .ok a) (as : List α) :
    sequence read (.arr (as.map encode)) = .ok as :=
  elements_encode hread as

/-- A map is read back with its keys in their order. -/
theorem map_encode (hread : ∀ a, read (encode a) = .ok a) (entries : Entries α) :
    map read (.obj (entries.map fun (key, a) => (key, encode a))) = .ok entries := by
  show values read (entries.map fun (key, a) => (key, encode a)) = .ok entries
  induction entries with
  | nil => rfl
  | cons entry rest ih =>
    obtain ⟨key, a⟩ := entry
    rw [List.map_cons, values, hread, ih]
    rfl

end Parts

theorem strings?_map_str (names : List String) : strings? (names.map .str) = some names := by
  induction names with
  | nil => rfl
  | cons name rest ih =>
    rw [List.map_cons, strings?, ih]
    rfl

/-! ## §2. Values that may be null -/

theorem string?_encode (name : Option String) : string? (Tree.ofOption .str name) = .ok name := by
  cases name <;> rfl

theorem boolean?_encode (flag : Option Bool) :
    boolean? (Tree.ofOption .bool flag) = .ok flag := by
  cases flag <;> rfl

/-! ## §3. Values in several forms -/

/-- A pointer is a string and a list of segments is none, so neither is taken for the other. -/
theorem path_encode (p : WrittenPath) : path p.encode = .ok p := by
  cases p with
  | pointer text => rfl
  | segments names =>
    show path (.arr (names.map .str)) = _
    rw [path, strings?_map_str]

theorem matrixValue_encode (value : MatrixValue) : matrixValue value.encode = .ok value := by
  cases value <;> rfl

/-- An import with a choice is an object that always has both fields. -/
theorem importSpec_encode (spec : ImportSpec) : importSpec spec.encode = .ok spec := by
  cases spec <;> rfl

/-- Patterns are an object, so they are not taken for the list of the included ones.  The
    excluded ones are left out only where there are none. -/
theorem patterns_encode (e : ExportPatterns) : patterns e.encode = .ok e := by
  obtain ⟨included, excluded⟩ := e
  have hincluded := strings?_map_str included
  cases excluded with
  | nil =>
    show patterns (.obj [("include", .arr (included.map .str))]) = _
    have hinclude : Entries.get? "include" [("include", Tree.arr (included.map .str))]
        = some (.arr (included.map .str)) := rfl
    have hexclude : Entries.get? "exclude" [("include", Tree.arr (included.map .str))] = none := rfl
    simp only [patterns, hinclude, hexclude, hincluded]
  | cons name rest =>
    have hexcluded := strings?_map_str (name :: rest)
    show patterns (.obj [("include", .arr (included.map .str)),
      ("exclude", .arr ((name :: rest).map .str))]) = _
    have hinclude : Entries.get? "include" [("include", Tree.arr (included.map .str)),
        ("exclude", .arr ((name :: rest).map .str))] = some (.arr (included.map .str)) := rfl
    have hexclude : Entries.get? "exclude" [("include", Tree.arr (included.map .str)),
        ("exclude", .arr ((name :: rest).map .str))]
        = some (.arr ((name :: rest).map .str)) := rfl
    simp only [patterns, hinclude, hexclude, hincluded, hexcluded]

theorem patterns?_encode (exports : Option ExportPatterns) :
    patterns? (Tree.ofOption ExportPatterns.encode exports) = .ok exports := by
  cases exports with
  | none => rfl
  | some e =>
    show (patterns e.encode).map some = _
    rw [patterns_encode]
    rfl

/-! ## §4. Operations -/

section Fields

variable {m : Mode} {draft : OperationDraft} {name : String} {rest : List (String × Tree)}

/-- A field that the mode does not have is skipped; so is the mode itself. -/
theorem operationFields_skip (h : name ∉ m.fieldNames) (t : Tree) :
    operationFields m draft ((name, t) :: rest) = operationFields m draft rest := by
  rw [operationFields, operationField, if_pos h]
  rfl

theorem operationFields_path (h : "path" ∈ m.fieldNames) (p : WrittenPath) :
    operationFields m draft (("path", p.encode) :: rest)
      = operationFields m { draft with path := some p } rest := by
  rw [operationFields, operationField, if_neg (not_not_intro h), if_pos rfl, path_encode]
  rfl

theorem operationFields_source (h : "from" ∈ m.fieldNames) (p : WrittenPath) :
    operationFields m draft (("from", p.encode) :: rest)
      = operationFields m { draft with source := some p } rest := by
  rw [operationFields, operationField, if_neg (not_not_intro h), if_neg (by decide), if_pos rfl,
    path_encode]
  rfl

/-- Any tree is a value, also null. -/
theorem operationFields_value (h : "value" ∈ m.fieldNames) (t : Tree) :
    operationFields m draft (("value", t) :: rest)
      = operationFields m { draft with value := some t } rest := by
  rw [operationFields, operationField, if_neg (not_not_intro h), if_neg (by decide),
    if_neg (by decide), if_pos rfl]
  rfl

/-- The strictness comes last; where it is left out, none has been read. -/
theorem operationFields_strictField (h : "strict" ∈ m.fieldNames) (hnone : draft.strict = none)
    (strict : Option Bool) :
    operationFields m draft (Operation.strictField strict) = .ok { draft with strict } := by
  cases strict with
  | none =>
    show Except.ok draft = _
    rw [← hnone]
  | some flag =>
    show operationFields m draft [("strict", .bool flag)] = _
    rw [operationFields, operationField, if_neg (not_not_intro h), if_neg (by decide),
      if_neg (by decide), if_neg (by decide)]
    rfl

end Fields

theorem mode_write (m : WriteMode) : mode (.str m.name) = .ok (.write m) := by
  cases m <;> rfl

theorem mode_transfer (m : TransferMode) : mode (.str m.name) = .ok (.transfer m) := by
  cases m <;> rfl

/-- An object that names its mode is read as the fields of the mode. -/
theorem operation_obj {t : Tree} {m : Mode} (hmode : mode t = .ok m)
    (fields : List (String × Tree)) :
    operation (.obj (("op", t) :: fields)) =
      operationFields m .empty (("op", t) :: fields) >>= fun draft =>
        draft.finish m .missingField := by
  show (mode t >>= fun m => operationFields m .empty (("op", t) :: fields) >>= fun draft =>
    draft.finish m .missingField) = _
  rw [hmode]
  rfl

/-- **An operation is read back**, in every mode, with both spellings of its paths, whatever
    value it writes and whatever it says about strictness. -/
theorem operation_encode (op : Operation) : operation op.encode = .ok op := by
  cases op with
  | write m path value strict =>
    show operation (.obj (("op", .str m.name) :: ("path", path.encode) :: ("value", value)
      :: Operation.strictField strict)) = _
    have hnames : (Mode.write m).fieldNames = ["path", "value", "strict"] := rfl
    rw [operation_obj (mode_write m), operationFields_skip (by rw [hnames]; decide),
      operationFields_path (by rw [hnames]; decide), operationFields_value (by rw [hnames]; decide),
      operationFields_strictField (by rw [hnames]; decide) rfl]
    rfl
  | transfer m source path strict =>
    show operation (.obj (("op", .str m.name) :: ("from", source.encode) :: ("path", path.encode)
      :: Operation.strictField strict)) = _
    have hnames : (Mode.transfer m).fieldNames = ["from", "path", "strict"] := rfl
    rw [operation_obj (mode_transfer m), operationFields_skip (by rw [hnames]; decide),
      operationFields_source (by rw [hnames]; decide),
      operationFields_path (by rw [hnames]; decide),
      operationFields_strictField (by rw [hnames]; decide) rfl]
    rfl
  | remove path strict =>
    show operation (.obj (("op", .str "remove") :: ("path", path.encode)
      :: Operation.strictField strict)) = _
    have hmode : mode (.str "remove") = .ok .remove := rfl
    rw [operation_obj hmode, operationFields_skip (by decide), operationFields_path (by decide),
      operationFields_strictField (by decide) rfl]
    rfl

/-! ## §5. Patches and directives -/

theorem matrix?_encode (matrix : Option (Entries (List MatrixValue))) :
    matrix? (Tree.ofOption Patch.encodeMatrix matrix) = .ok matrix := by
  cases matrix with
  | none => rfl
  | some entries =>
    have hvalues : ∀ values : List MatrixValue,
        sequence matrixValue (.arr (values.map MatrixValue.encode)) = .ok values :=
      sequence_encode matrixValue_encode
    show (map (sequence matrixValue) (Patch.encodeMatrix entries)).map some = _
    rw [Patch.encodeMatrix, map_encode hvalues]
    rfl

/-- A patch has all its fields, and no other. -/
theorem patch_encode (p : Patch) : patch p.encode = .ok p := by
  have hname := string?_encode p.name
  have hstrict := boolean?_encode p.strict
  have hmatrix := matrix?_encode p.matrix
  have hoperations := sequence_encode operation_encode p.operations
  show (patchFields .empty [("name", Tree.ofOption .str p.name),
    ("strict", Tree.ofOption .bool p.strict), ("matrix", Tree.ofOption Patch.encodeMatrix p.matrix),
    ("operations", .arr (p.operations.map Operation.encode))] >>= fun draft =>
      draft.finish (.missingField "operations")) = _
  simp only [patchFields, patchField, hname, hstrict, hmatrix, hoperations]
  rfl

/-- **Directives are read back.** -/
theorem decode_encode (d : Directives) : decode d.encode = .ok d := by
  have himports := map_encode importSpec_encode d.imports
  have hpatches := sequence_encode patch_encode d.patches
  have hexports := patterns?_encode d.exports
  unfold Directives.encode
  show fields .empty _ = _
  simp only [fields, field, himports, hpatches, hexports]
  rfl

end Directive

/-! ## §6. Documents -/

namespace Document

/-- **Directives are read as they are written.**  The tree of any directives is read back as
    these directives, with imports, keys and values in their order.  An object that holds the
    tree under `$build`, wherever that stands among its entries, is taken apart into the
    directives and the other entries in their order. -/
theorem split_around_encode (d : Directives) :
    Directive.decode d.encode = .ok d ∧
    ∀ front back : List (String × Tree), buildKey ∉ Entries.keys front →
      split (.obj (front ++ (buildKey, d.encode) :: back))
        = .ok { data := .obj (front ++ back), directives := some d } := by
  refine ⟨Directive.decode_encode d, ?_⟩
  intro front back hfront
  have hget := Entries.get?_append_cons hfront d.encode back
  have herase := Entries.erase_append_cons hfront d.encode back
  simp only [split, hget, herase, Directive.decode_encode]

/-- Directives in which every part has an absent field, a null or a second spelling. -/
def mixedDirectives : Directives where
  imports := [("scale", .detailed "./scale.yaml" false), ("base", .file "./base.yaml"),
    ("palette", .detailed "./palette.yaml" true)]
  patches :=
    [{ name := some "mixed", strict := none, matrix := some
         [("size", [.text "$[[s..xl]]", .number (.int 500)]), ("empty", [])]
       operations :=
         [.write .add (.pointer "/color/none") .null none,
           .write .merge (.segments []) (.obj [("op", .str "add"), ("path", .arr [])]) (some false),
           .write .replace (.pointer "") (.bool true) none,
           .transfer .copy (.pointer "/a") (.segments ["b", "c/d"]) (some true),
           .transfer .move (.segments ["from"]) (.pointer "/path") none,
           .remove (.segments ["strict"]) (some true)] },
      { name := none, strict := some true, matrix := none, operations := [] }]
  exports := some { included := ["**"], excluded := ["space/xl"] }

/-- The directives stand between two entries of data, which stay as they are. -/
theorem split_around_encode_mixed :
    buildKey ∉ Entries.keys [("red", Tree.str "#f00")] ∧
      split (.obj [("red", .str "#f00"), (buildKey, mixedDirectives.encode), ("blue", .null)])
        = .ok { data := .obj [("red", .str "#f00"), ("blue", .null)],
                directives := some mixedDirectives } := by
  have hfront : buildKey ∉ Entries.keys [("red", Tree.str "#f00")] := by decide
  exact ⟨hfront, (split_around_encode mixedDirectives).2 _ [("blue", .null)] hfront⟩

end Document

end DesignTokens
