/-
  DesignTokens.Toml.Table — tables that are put together piece by piece.

  A table comes into being in one of three ways: by its header, by a longer header that passes
  through it, or by dotted keys.  Which of these it was decides what may still be added.  A
  table that is defined once its header comes behind longer ones moves to the end.
-/
import DesignTokens.Entries
import DesignTokens.Tree.Basic

namespace DesignTokens.Toml

/-- How a table came into being. -/
inductive Origin where
  /-- By its own header. -/
  | defined
  /-- By a longer header. -/
  | implied
  /-- By dotted keys. -/
  | dotted
deriving Repr, DecidableEq

/-- What stands under a key. -/
inductive Item where
  /-- A value, which takes no additions. -/
  | value (tree : Tree)
  | table (origin : Origin) (fields : List (String × Item))
  /-- The tables that headers in double brackets add, in order. -/
  | tables (elements : List (List (String × Item)))
deriving Repr, Inhabited

/-- The fields of a table. -/
abbrev Fields := List (String × Item)

/-! ## §1. Trees -/

mutual

/-- An item as a tree. -/
def Item.tree : Item → Tree
  | .value tree => tree
  | .table _ fields => .obj (fieldTrees fields)
  | .tables elements => .arr (elementTrees elements)

/-- Fields as trees. -/
def fieldTrees : List (String × Item) → List (String × Tree)
  | [] => []
  | (key, item) :: fields => (key, item.tree) :: fieldTrees fields

/-- Tables as trees. -/
def elementTrees : List (List (String × Item)) → List Tree
  | [] => []
  | fields :: elements => .obj (fieldTrees fields) :: elementTrees elements

end

/-! ## §2. Descent -/

/-- Changes the table that a path leads to, starting from a table with the given origin.  Tables
    on the way that are missing come into being, through a header or dotted keys as `dotted`
    says; dotted keys do not lead into a table that has a header.  A path leads into the last
    of several tables. -/
def changeAt? (dotted : Bool) (change : Origin → Fields → Option Fields) :
    List String → Origin → Fields → Option Fields
  | [], origin, fields => change origin fields
  | key :: path, _, fields =>
    match Entries.get? key fields with
    | none => do
      let origin := if dotted then .dotted else .implied
      let inner ← changeAt? dotted change path origin []
      return Entries.put key (.table origin inner) fields
    | some (.value _) => none
    | some (.table origin inner) => do
      if dotted && origin == .defined then none
      let inner ← changeAt? dotted change path origin inner
      return Entries.put key (.table origin inner) fields
    | some (.tables elements) => do
      let inner ← changeAt? dotted change path .defined (← elements.getLast?)
      return Entries.put key (.tables (elements.dropLast ++ [inner])) fields

/-! ## §3. Additions -/

/-- A key with dots, in front of its last part and that part. -/
structure Key where
  path : List String
  last : String
deriving Repr, DecidableEq

/-- Adds a new field. -/
def insert? (key : String) (value : Tree) (fields : Fields) : Option Fields :=
  if Entries.has key fields then none else some (Entries.put key (.value value) fields)

/-- Adds a field under a key with dots.  Dotted keys end in a table of dotted keys. -/
def addField? (fields : Fields) (field : Key × Tree) : Option Fields :=
  let (key, value) := field
  let change (origin : Origin) (inner : Fields) : Option Fields :=
    if key.path.isEmpty == (origin == .dotted) then none else insert? key.last value inner
  changeAt? true change key.path .defined fields

/-- The fields that a table starts with once it gets its header, and the others beside it. -/
def define? (key : String) (fields : Fields) : Option (Fields × Fields) :=
  match Entries.get? key fields with
  | none => some ([], fields)
  | some (.table .implied inner) => some (inner, Entries.erase key fields)
  | some _ => none

/-- A header with the fields behind it. -/
structure Section where
  key : Key
  /-- Whether the header adds a table to several. -/
  repeated : Bool
  fields : List (Key × Tree)
deriving Repr

/-- Adds a table with a header. -/
def addSection? (root : Fields) (s : Section) : Option Fields :=
  let change (_ : Origin) (parent : Fields) : Option Fields :=
    if s.repeated then do
      let added ← s.fields.foldlM addField? []
      match Entries.get? s.key.last parent with
      | none => return Entries.put s.key.last (.tables [added]) parent
      | some (.tables elements) =>
        return Entries.put s.key.last (.tables (elements ++ [added])) parent
      | some _ => none
    else do
      let (start, others) ← define? s.key.last parent
      let fields ← s.fields.foldlM addField? start
      return Entries.put s.key.last (.table .defined fields) others
  changeAt? false change s.key.path .defined root

/-- The tree of a text: the fields in front of the first header, and the tables behind it. -/
def document? (fields : List (Key × Tree)) (sections : List Section) : Option Tree := do
  let root ← fields.foldlM addField? []
  let root ← sections.foldlM addSection? root
  return .obj (fieldTrees root)

end DesignTokens.Toml
