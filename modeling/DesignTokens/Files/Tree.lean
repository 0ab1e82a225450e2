/-
  DesignTokens.Files.Tree — folders and files, and what commands do to them.

  A tree says what stands at a place, where a place is the names from the outermost folder on.
  Paths are followed step by step: every folder that is passed through must exist, so a step up
  leads out of the folder that is really there.

  An operation passes the tree along, also where it fails: folders that were made before a
  failure stay.

  Main facts:
    * `node?_set_self`, `node?_set_of_ne` — what a change changes, and what it leaves alone.
-/
import DesignTokens.DocPath

namespace DesignTokens

/-- A place in a tree of files: names from the outermost folder on. -/
abbrev Place := List String

/-- What stands at a place. -/
inductive FileNode where
  | folder
  | file (text : String)
deriving Repr, DecidableEq

/-- Folders and files. -/
structure FileTree where
  nodes : List (Place × FileNode)
deriving Repr

/-- Why an operation on files fails. -/
inductive FileFault where
  | missing
  | alreadyFile
  | notFolder
  | isFolder
  | badName
deriving Repr, DecidableEq

/-- The text of a failure. -/
def FileFault.message : FileFault → String
  | .missing => "No such file or directory (os error 2)"
  | .alreadyFile => "File exists (os error 17)"
  | .notFolder => "Not a directory (os error 20)"
  | .isFolder => "Is a directory (os error 21)"
  | .badName => "Invalid argument (os error 22)"

namespace FileTree

/-! ## §1. Places -/

/-- What stands at a place.  The outermost folder is always there. -/
def node? (place : Place) (t : FileTree) : Option FileNode :=
  if place = [] then some .folder
  else (t.nodes.find? fun entry => entry.1 = place).map Prod.snd

/-- Puts something at a place. -/
def set (place : Place) (node : FileNode) (t : FileTree) : FileTree :=
  ⟨(place, node) :: t.nodes.filter fun entry => entry.1 ≠ place⟩

theorem node?_set_self {place : Place} (h : place ≠ []) (node : FileNode) (t : FileTree) :
    (t.set place node).node? place = some node := by
  simp [node?, set, h]

theorem node?_set_of_ne {place other : Place} (h : other ≠ place) (node : FileNode)
    (t : FileTree) : (t.set place node).node? other = t.node? other := by
  have hfind : ∀ l : List (Place × FileNode),
      (l.filter fun entry => entry.1 ≠ place).find? (fun entry => entry.1 = other)
        = l.find? fun entry => entry.1 = other := by
    intro l
    rw [List.find?_filter]
    congr 1
    funext entry
    by_cases hentry : entry.1 = other
    · simp [hentry, h]
    · simp [hentry]
  simp only [node?, set, List.find?_cons, hfind]
  simp [Ne.symm h]

/-- Whether a folder stands at a place. -/
def isFolder (place : Place) (t : FileTree) : Bool := t.node? place == some .folder

/-- The text of the file at a place. -/
def fileText? (place : Place) (t : FileTree) : Option String :=
  match t.node? place with
  | some (.file text) => some text
  | _ => none

/-! ## §2. Paths -/

/-- The place that a step leads to. -/
def enter (here : Place) : PathStep → Place
  | .name name => here ++ [name]
  | .up => here.dropLast

/-- The place that steps lead to.  Whatever is passed through must be a folder. -/
def walk? (t : FileTree) : (here : Place) → List PathStep → Option Place
  | here, [] => some here
  | here, step :: rest => if t.isFolder here then walk? t (enter here step) rest else none

/-- Where a path starts, seen from a folder. -/
def origin (here : Place) (path : DocPath) : Place := if path.absolute then [] else here

/-- The place that a path leads to from a folder.  It need not exist. -/
def locate? (t : FileTree) (here : Place) (path : DocPath) : Option Place :=
  t.walk? (origin here path) path.steps

/-! ## §3. Changes -/

/-- How many bytes a name may take. -/
def longestName : Nat := 255

/-- Whether a name can be given to a file. -/
def isName (name : String) : Bool :=
  !name.toList.any (·.toNat == 0) && name.utf8ByteSize ≤ longestName

/-- Makes the folders that steps lead through, as far as they are missing. -/
def makeFoldersIn : (here : Place) → List PathStep → FileTree → Except FileFault Unit × FileTree
  | _, [], t => (.ok (), t)
  | here, .up :: rest, t => makeFoldersIn here.dropLast rest t
  | here, .name name :: rest, t =>
    let next := here ++ [name]
    match t.node? next with
    | some .folder => makeFoldersIn next rest t
    | some (.file _) => (.error (if rest.isEmpty then .alreadyFile else .notFolder), t)
    | none =>
      if isName name then makeFoldersIn next rest (t.set next .folder)
      else (.error .badName, t)

/-- Makes the folders that a path leads through. -/
def makeFolders (here : Place) (path : DocPath) (t : FileTree) :
    Except FileFault Unit × FileTree :=
  makeFoldersIn (origin here path) path.steps t

/-- Writes a file into a folder. -/
def writeIn (folder : Place) (name text : String) (t : FileTree) :
    Except FileFault Unit × FileTree :=
  if !t.isFolder folder then (.error .missing, t)
  else if t.isFolder (folder ++ [name]) then (.error .isFolder, t)
  else if isName name then (.ok (), t.set (folder ++ [name]) (.file text))
  else (.error .badName, t)

/-- Writes a file.  Its folder must exist. -/
def write (here : Place) (path : DocPath) (text : String) (t : FileTree) :
    Except FileFault Unit × FileTree :=
  match path.steps.getLast?, t.walk? (origin here path) path.steps.dropLast with
  | some (.name name), some folder => t.writeIn folder name text
  | some (.name _), none => (.error .missing, t)
  | _, _ => (.error .isFolder, t)

end FileTree

/-! ## §4. Seen from a folder -/

/-- A tree of files, and the folder that relative paths start from. -/
structure Workspace where
  tree : FileTree
  here : Place
deriving Repr

namespace Workspace

/-- Whether a written path can only mean a folder, as its end says. -/
def meansFolder (path : String) : Bool :=
  match (Text.splitString '/' path).getLast? with
  | some piece => piece = "" ∨ piece = "." ∨ piece = ".."
  | none => true

/-- What a written path leads to. -/
def node? (path : String) (w : Workspace) : Option FileNode := do
  let place ← w.tree.locate? w.here (.parse path)
  match ← w.tree.node? place with
  | .file text => if meansFolder path then none else some (.file text)
  | .folder => some .folder

/-- Saves a file at a path below a folder, with the folders that it needs. -/
def save (base : DocPath) (path text : String) (w : Workspace) :
    Except FileFault Unit × Workspace :=
  let full := base.join (.parse path)
  match w.tree.makeFolders w.here { full with steps := full.steps.dropLast } with
  | (.error fault, tree) => (.error fault, { w with tree })
  | (.ok _, tree) =>
    if meansFolder path then (.error .isFolder, { w with tree })
    else
      let (result, tree) := tree.write w.here full text
      (result, { w with tree })

/-- An empty folder that files are saved in, as far as that is possible. -/
def ofFiles (here : Place) (files : List (String × String)) : Workspace :=
  let (_, tree) := FileTree.makeFolders [] ⟨true, here.map .name⟩ ⟨[]⟩
  files.foldl (fun w (path, text) => (w.save ⟨false, []⟩ path text).2) ⟨tree, here⟩

/-- The files that are not as they were before, with what they hold. -/
def changes (before after : Workspace) : List (Place × String) :=
  after.tree.nodes.filterMap fun (place, node) =>
    match node with
    | .file text =>
      if before.tree.fileText? place = some text then none else some (place, text)
    | .folder => none

/-- The changes below the folder, by relative paths in their order. -/
def changesHere (before after : Workspace) : List (String × String) :=
  let found := (before.changes after).filterMap fun (place, text) =>
    (after.here.isPrefixOf? place).map fun names => ("/".intercalate names, text)
  found.mergeSort fun a b => a.1 ≤ b.1

/-- The path of a place. -/
def pathOf (place : Place) : DocPath := ⟨true, place.map .name⟩

/-- The files as documents. -/
def documents (w : Workspace) : List (DocPath × ByteArray) :=
  w.tree.nodes.filterMap fun (place, node) =>
    match node with
    | .folder => none
    | .file text => some (pathOf place, text.toUTF8)

end Workspace

end DesignTokens
