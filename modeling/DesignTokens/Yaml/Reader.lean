/-
  DesignTokens.Yaml.Reader — the tree of a YAML text.

  References are replaced by the nodes they refer to.  Containers may nest `deepest` levels,
  those behind references included, which refuses a node that refers to itself; and a text has
  a number of jumps to spend that its size decides, which keeps its tree from growing without
  bound.

  Of equal keys the first place and the last value stay.  A key is the text of a scalar.
-/
import DesignTokens.Yaml.Encoding
import DesignTokens.Yaml.Layout
import DesignTokens.Yaml.Node
import DesignTokens.Yaml.Schema

namespace DesignTokens.Yaml

/-! ## §1. Anchors -/

namespace Node

mutual

/-- The nodes with an anchor, in the order in which they start, and their numbers. -/
def anchored : Node → List (Nat × Node)
  | .scalar p text plain => (p.anchor.map fun id => (id, .scalar p text plain)).toList
  | .sequence p items =>
    (p.anchor.map fun id => (id, .sequence p items)).toList ++ anchoredItems items
  | .mapping p fields =>
    (p.anchor.map fun id => (id, .mapping p fields)).toList ++ anchoredFields fields
  | .reference _ => []

/-- The same among the items of a sequence. -/
def anchoredItems : List Node → List (Nat × Node)
  | [] => []
  | item :: items => anchored item ++ anchoredItems items

/-- The same among the fields of a mapping. -/
def anchoredFields : List (Node × Node) → List (Nat × Node)
  | [] => []
  | (key, value) :: fields => anchored key ++ anchored value ++ anchoredFields fields

end

mutual

/-- The size of a node: a collection counts for its two ends and what is between. -/
def size : Node → Nat
  | .scalar .. | .reference _ => 1
  | .sequence _ items => 2 + sizeItems items
  | .mapping _ fields => 2 + sizeFields fields

/-- The size of the items of a sequence. -/
def sizeItems : List Node → Nat
  | [] => 0
  | item :: items => size item + sizeItems items

/-- The size of the fields of a mapping. -/
def sizeFields : List (Node × Node) → Nat
  | [] => 0
  | (key, value) :: fields => size key + size value + sizeFields fields

end

end Node

/-- The nodes that references stand for.  Of equal numbers the last counts. -/
abbrev Anchors := List (Nat × Node)

/-- The node with a number. -/
def Anchors.get? (id : Nat) (anchors : Anchors) : Option Node :=
  (anchors.reverse.find? fun (other, _) => other == id).map Prod.snd

/-! ## §2. Trees -/

/-- A step that may spend jumps. -/
abbrev Spend := StateT Nat Option

/-- Spends a jump. -/
def jump : Spend Unit := fun jumps =>
  match jumps with
  | 0 => none
  | left + 1 => some ((), left)

/-- The node itself, or the one that it refers to. -/
def target (anchors : Anchors) : Node → Spend Node
  | .reference id => do
    jump
    anchors.get? id
  | node => pure node

/-- The text of a scalar. -/
def key? : Node → Option String
  | .scalar _ text _ => some text
  | _ => none

/-- The tree of a scalar. -/
def scalarTree? (p : Properties) (text : String) (plain : Bool) : Option Tree :=
  match p.tag with
  | some tag => tagged? tag text
  | none => if plain then plain? text else some (.str text)

/-- Whether a collection may have this tag: none of the text's own. -/
def allowsTag (p : Properties) : Bool :=
  p.tag.all fun tag => tag.toList.head? != some '!'

/-- The tree of a node whose containers nest at most `depth` levels. -/
def tree (anchors : Anchors) : Nat → Node → Spend Tree
  | 0, node => do
    match ← target anchors node with
    | .scalar p text plain => scalarTree? p text plain
    | _ => none
  | depth + 1, node => do
    match ← target anchors node with
    | .scalar p text plain => scalarTree? p text plain
    | .sequence p items =>
      if !allowsTag p then failure
      return .arr (← items.mapM (tree anchors depth))
    | .mapping p fields =>
      if !allowsTag p then failure
      let writes ← fields.mapM fun (key, value) => do
        let key ← key? (← target anchors key)
        return (key, ← tree anchors depth value)
      return .obj (Entries.ofWrites writes)
    | .reference _ => failure

/-- How many levels containers may nest. -/
def deepest : Nat := 128

/-- How many jumps a text may spend for each of its nodes. -/
def jumpsPerNode : Nat := 100

/-- The tree of a document. -/
def Node.tree? (root : Node) : Option Tree :=
  ((tree root.anchored deepest root).run (root.size * jumpsPerNode)).map Prod.fst

/-! ## §3. Texts -/

/-- The tree that a YAML text holds. -/
def parse? (bytes : ByteArray) : Option Tree := do
  let text ← decode? bytes
  if !text.all isAdmitted then none
  let tokens ← tokens? (unifyBreaks text)
  let root ← Node.document? tokens
  root.tree?

end DesignTokens.Yaml
