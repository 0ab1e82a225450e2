/-
  DesignTokens.Edit.Apply — what an edit makes of a tree.

  Every traversal follows the path segment by segment and keeps the path walked so far, so that
  a failure can name the place where it arose.  Scalars on the way and positions that are none
  are failures for a write; for reading and detaching a scalar on the way means that there is
  nothing at the path, while a position that is none is still a failure.

  Strictness only adds checks, made after the parents have been reached and before anything is
  written:

    mode       strict edits need
    add        nothing at the path, and every parent
    replace    something at the path
    merge      something at the path
    copy       what `add` needs
    move       what `add` needs
    remove     something at the path
-/
import DesignTokens.Edit.Position
import DesignTokens.Tree.Merge

namespace DesignTokens.Edit

/-! ## §1. Reading -/

/-- The node that lies `segments` below a tree that itself stands at `here`. -/
def read (here : Pointer) : List String → Tree → Except EditError (Option Tree)
  | [], t => .ok (some t)
  | segment :: rest, .obj fields =>
    match Entries.get? segment fields with
    | some child => read (here.child segment) rest child
    | none => .ok none
  | segment :: rest, .arr items => do
    let index ← position (here.child segment) segment items.length
    match items[index]? with
    | some child => read (here.child segment) rest child
    | none => .ok none
  | _ :: _, _ => .ok none

/-- The node at a path of a document. -/
def get (doc : Tree) (path : Pointer) : Except EditError (Option Tree) :=
  read .root path.segments doc

/-! ## §2. Detaching -/

/-- A node taken out of a tree, and the tree without it. -/
structure Detached where
  node : Tree
  remainder : Tree
deriving Repr, DecidableEq

/-- Takes the node out that lies `segments` below a tree that itself stands at `here`. -/
def detach (here : Pointer) : List String → Tree → Except EditError (Option Detached)
  | [], t => .ok (some ⟨t, .obj []⟩)
  | [segment], .obj fields =>
    .ok ((Entries.get? segment fields).map fun node => ⟨node, .obj (Entries.erase segment fields)⟩)
  | [segment], .arr items => do
    let index ← position (here.child segment) segment items.length
    return items[index]?.map fun node => ⟨node, .arr (items.eraseIdx index)⟩
  | segment :: rest, .obj fields =>
    match Entries.get? segment fields with
    | some child => do
      let found ← detach (here.child segment) rest child
      return found.map fun d =>
        { d with remainder := .obj (Entries.put segment d.remainder fields) }
    | none => .ok none
  | segment :: rest, .arr items => do
    let index ← position (here.child segment) segment items.length
    match items[index]? with
    | some child =>
      let found ← detach (here.child segment) rest child
      return found.map fun d => { d with remainder := .arr (items.set index d.remainder) }
    | none => .ok none
  | _ :: _, _ => .ok none

/-- Takes the node at a path out of a document.  Taking the root leaves an empty object. -/
def take (doc : Tree) (path : Pointer) : Except EditError (Option Detached) :=
  detach .root path.segments doc

/-! ## §3. Writing -/

/-- What a write leaves at a place that held `old`. -/
def overwrite (mode : WriteMode) (old value : Tree) : Tree :=
  match mode with
  | .merge => old.merge value
  | .add | .replace => value

/-- The checks of a strict write whose parents have been reached. -/
def checkStrict (mode : WriteMode) (path : Pointer) (created : Option Pointer)
    (present : Bool) : Except EditError Unit :=
  match mode with
  | .add =>
    match created with
    | some place => .error (.createdIntermediate path place)
    | none => if present then .error (.pathExists path) else .ok ()
  | .merge | .replace => if present then .ok () else .error (.pathMissing path)

/-- The checks of a write: none, unless it is strict. -/
def check (mode : WriteMode) (strict : Bool) (path : Pointer) (created : Option Pointer)
    (present : Bool) : Except EditError Unit :=
  if strict then checkStrict mode path created present else .ok ()

/-- Writes to a child of a tree that itself stands at `here`. -/
def writeChild (mode : WriteMode) (strict : Bool) (value : Tree) (created : Option Pointer)
    (here : Pointer) (segment : String) : Tree → Except EditError Tree
  | .obj fields => do
    let old := Entries.get? segment fields
    check mode strict (here.child segment) created old.isSome
    match old with
    | some old => return .obj (Entries.put segment (overwrite mode old value) fields)
    | none => return .obj (Entries.put segment value fields)
  | .arr items => do
    let index ← position (here.child segment) segment items.length
    let old := items[index]?
    check mode strict (here.child segment) created old.isSome
    match old with
    | some old => return .arr (items.set index (overwrite mode old value))
    | none => return .arr (items ++ [value])
  | scalar => .error (.notContainer (here.child segment) scalar.kind)

/-- Writes to the place that lies `segment :: rest` below a tree that itself stands at `here`.
    Parents that are missing become empty objects; `created` is the first of them. -/
def writeBelow (mode : WriteMode) (strict : Bool) (value : Tree) :
    (created : Option Pointer) → (here : Pointer) → (segment : String) → (rest : List String) →
      Tree → Except EditError Tree
  | created, here, segment, [], t => writeChild mode strict value created here segment t
  | created, here, segment, next :: rest, .obj fields =>
    match Entries.get? segment fields with
    | some child => do
      let child ← writeBelow mode strict value created (here.child segment) next rest child
      return .obj (Entries.put segment child fields)
    | none => do
      let child ← writeBelow mode strict value (created <|> some (here.child segment))
        (here.child segment) next rest (.obj [])
      return .obj (Entries.put segment child fields)
  | created, here, segment, next :: rest, .arr items => do
    let index ← position (here.child segment) segment items.length
    match items[index]? with
    | some child =>
      let child ← writeBelow mode strict value created (here.child segment) next rest child
      return .arr (items.set index child)
    | none =>
      let child ← writeBelow mode strict value (created <|> some (here.child segment))
        (here.child segment) next rest (.obj [])
      return .arr (items ++ [child])
  | _, here, segment, _ :: _, scalar => .error (.notContainer (here.child segment) scalar.kind)

/-- Writes to the root, which has to stay an object.  Strictness asks for nothing here. -/
def writeRoot (mode : WriteMode) (value doc : Tree) : Except EditError Tree :=
  if value.isObject then
    match mode with
    | .merge => .ok (doc.merge value)
    | .add | .replace => .ok value
  else .error (.rootNotObject value.kind)

/-- Writes a value to a place of a document. -/
def writeAt (mode : WriteMode) (strict : Bool) (path : Pointer) (value doc : Tree) :
    Except EditError Tree :=
  match path.segments with
  | [] => writeRoot mode value doc
  | segment :: rest => writeBelow mode strict value none .root segment rest doc

/-! ## §4. Edits -/

/-- Makes an edit, strict or not. -/
def applyWith (strict : Bool) (edit : Edit) (doc : Tree) : Except EditError Tree :=
  match edit with
  | .write mode path value _ => writeAt mode strict path value doc
  | .transfer .copy source path _ => do
    match ← get doc source with
    | some node => writeAt .add strict path node doc
    | none => .error (.sourceMissing source)
  | .transfer .move source path _ => do
    match ← take doc source with
    | some found => writeAt .add strict path found.node found.remainder
    | none => .error (.sourceMissing source)
  | .remove path _ =>
    if path.isRoot then .ok (.obj [])
    else do
      match ← take doc path with
      | some found => .ok found.remainder
      | none => if strict then .error (.pathMissing path) else .ok doc

/-- Makes an edit.  What it says about its own strictness goes before the default. -/
def apply (strictByDefault : Bool) (edit : Edit) (doc : Tree) : Except EditError Tree :=
  edit.applyWith (edit.strict.getD strictByDefault) doc

/-- Makes edits one after the other, up to the first that fails. -/
def applyAll (strictByDefault : Bool) : List Edit → Tree → Except EditError Tree
  | [], doc => .ok doc
  | edit :: rest, doc => do applyAll strictByDefault rest (← edit.apply strictByDefault doc)

end DesignTokens.Edit
