/-
  DesignTokens.Yaml.Node — from tokens to nodes.

  A node is a scalar, a collection, or a reference to a node with an anchor.  Where a node may
  be missing, the empty plain scalar stands for it.  Reading is a recursive descent on the
  nesting; the items of a collection are bounded by the number of tokens, as each takes one.
-/
import DesignTokens.Yaml.Token

namespace DesignTokens.Yaml

/-- What may stand in front of a node. -/
structure Properties where
  anchor : Option Nat := none
  tag : Option String := none
deriving Repr, DecidableEq

/-- Whether nothing stands in front of a node. -/
def Properties.isEmpty (p : Properties) : Bool := p.anchor.isNone && p.tag.isNone

/-- A node of a document. -/
inductive Node where
  | scalar (properties : Properties) (text : String) (plain : Bool)
  | sequence (properties : Properties) (items : List Node)
  | mapping (properties : Properties) (fields : List (Node × Node))
  | reference (id : Nat)
deriving Repr, Inhabited

namespace Node

/-- The node that stands for a missing one. -/
def missing : Node := .scalar {} "" true

/-- A reading step on tokens. -/
abbrev Parse (α : Type) := List (Token Nat) → Option (α × List (Token Nat))

/-- What a node may be at a place. -/
inductive Place where
  /-- Inside brackets, no collection is bounded by indentation. -/
  | flow
  | block
  /-- As the key or the value of a block, a sequence may go without an indentation of its
      own. -/
  | field
deriving Repr, DecidableEq

/-! ## §1. Properties -/

/-- What the handles of tags stand for, where nothing else is declared. -/
def standardHandles : Entries String := [("!", "!"), ("!!", "tag:yaml.org,2002:")]

/-- A tag in full.  A handle must have been given a meaning. -/
def resolveTag? (handles : Entries String) (handle suffix : String) : Option String :=
  if handle = "" then some suffix
  else (Entries.get? handle handles).map (· ++ suffix)

/-- The properties in front of a node, in either order. -/
def properties? (handles : Entries String) : Parse Properties
  | .anchor id :: .tag handle suffix :: tokens | .tag handle suffix :: .anchor id :: tokens =>
    (resolveTag? handles handle suffix).map fun tag => (⟨some id, some tag⟩, tokens)
  | .tag handle suffix :: tokens =>
    (resolveTag? handles handle suffix).map fun tag => (⟨none, some tag⟩, tokens)
  | .anchor id :: tokens => some (⟨some id, none⟩, tokens)
  | tokens => some ({}, tokens)

/-- The properties of a scalar that is written: the lone exclamation mark is no tag, it makes
    the scalar a plain one. -/
def ofScalar (properties : Properties) (text : String) (plain : Bool) : Node :=
  if properties.tag = some "!" then .scalar { properties with tag := none } text plain
  else .scalar properties text plain

/-! ## §2. Collections -/

/-- A node, or the missing one in front of a token that passes the test. -/
def orMissing (test : Token Nat → Bool) (node : Parse Node) : Parse Node := fun tokens =>
  if tokens.head?.any test then some (.missing, tokens) else node tokens

/-- A node behind the token `mark`, or the missing one where that token is missing. -/
def behind (mark : Token Nat) (node : Parse Node) : Parse Node := fun tokens =>
  if tokens.head? = some mark then node tokens.tail else some (.missing, tokens)

/-- The items of a sequence that indentation bounds. -/
def blockItems? (node : Place → Parse Node) : Nat → Parse (List Node)
  | 0, _ => none
  | _ + 1, .closeBlock :: tokens => some ([], tokens)
  | bound + 1, .item :: tokens => do
    let (first, tokens) ← orMissing [.item, .closeBlock].contains (node .block) tokens
    let (others, tokens) ← blockItems? node bound tokens
    return (first :: others, tokens)
  | _ + 1, _ => none

/-- The items of a sequence without an indentation of its own. -/
def flushItems? (node : Place → Parse Node) : Nat → Parse (List Node)
  | 0, _ => none
  | bound + 1, .item :: tokens => do
    let (first, tokens) ←
      orMissing [.item, .key, .value, .closeBlock].contains (node .block) tokens
    let (others, tokens) ← flushItems? node bound tokens
    return (first :: others, tokens)
  | _ + 1, tokens => some ([], tokens)

/-- The fields of a mapping that indentation bounds. -/
def blockFields? (node : Place → Parse Node) : Nat → Parse (List (Node × Node))
  | 0, _ => none
  | _ + 1, .closeBlock :: tokens => some ([], tokens)
  | bound + 1, .key :: tokens => do
    let field := orMissing [.key, .value, .closeBlock].contains (node .field)
    let (key, tokens) ← field tokens
    let (value, tokens) ← behind .value field tokens
    let (others, tokens) ← blockFields? node bound tokens
    return ((key, value) :: others, tokens)
  | _ + 1, _ => none

/-- A field that is an item of a sequence in brackets.  Where its key is missing, one token is
    taken in the place of the key. -/
def pair? (node : Place → Parse Node) : Parse Node := fun tokens => do
  let ends := [.comma, .closeFlow .sequence]
  let (key, tokens) ←
    if tokens.head?.any (.value :: ends).contains then pure (missing, tokens.tail)
    else node .flow tokens
  let (value, tokens) ← behind .value (orMissing ends.contains (node .flow)) tokens
  return (.mapping {} [(key, value)], tokens)

/-- Takes the comma in front of a further item. -/
def comma? (first : Bool) (tokens : List (Token Nat)) : Option (List (Token Nat)) :=
  if first then some tokens
  else if tokens.head? = some .comma then some tokens.tail
  else none

/-- The items of a sequence in brackets. -/
def flowItems? (node : Place → Parse Node) : Nat → (first : Bool) → Parse (List Node)
  | 0, _, _ => none
  | _ + 1, _, .closeFlow .sequence :: tokens => some ([], tokens)
  | bound + 1, first, tokens => do
    match ← comma? first tokens with
    | .closeFlow .sequence :: tokens => return ([], tokens)
    | tokens =>
      let (item, tokens) ←
        if tokens.head? = some .key then pair? node tokens.tail else node .flow tokens
      let (others, tokens) ← flowItems? node bound false tokens
      return (item :: others, tokens)

/-- The fields of a mapping in brackets.  A node without the mark of a key is a key without a
    value. -/
def flowFields? (node : Place → Parse Node) :
    Nat → (first : Bool) → Parse (List (Node × Node))
  | 0, _, _ => none
  | _ + 1, _, .closeFlow .mapping :: tokens => some ([], tokens)
  | bound + 1, first, tokens => do
    match ← comma? first tokens with
    | .closeFlow .mapping :: tokens => return ([], tokens)
    | .key :: tokens =>
      let ends := [.comma, .closeFlow .mapping]
      let (key, tokens) ← orMissing (.value :: ends).contains (node .flow) tokens
      let (value, tokens) ← behind .value (orMissing ends.contains (node .flow)) tokens
      let (others, tokens) ← flowFields? node bound false tokens
      return ((key, value) :: others, tokens)
    | tokens =>
      let (key, tokens) ← node .flow tokens
      let (others, tokens) ← flowFields? node bound false tokens
      return ((key, missing) :: others, tokens)

/-! ## §3. Nodes -/

/-- A node at a place, behind its properties; `inner` reads the nodes inside of it. -/
def content? (inner : Place → Parse Node) (place : Place) (properties : Properties) :
    Parse Node := fun tokens =>
  let bound := tokens.length + 1
  match tokens with
  | .scalar text plain :: rest => some (ofScalar properties text plain, rest)
  | .openFlow .sequence :: rest =>
    (flowItems? inner bound true rest).map fun (items, left) =>
      (.sequence properties items, left)
  | .openFlow .mapping :: rest =>
    (flowFields? inner bound true rest).map fun (fields, left) =>
      (.mapping properties fields, left)
  | .openBlock .sequence :: rest =>
    if place = .flow then none
    else (blockItems? inner bound rest).map fun (items, left) =>
      (.sequence properties items, left)
  | .openBlock .mapping :: rest =>
    if place = .flow then none
    else (blockFields? inner bound rest).map fun (fields, left) =>
      (.mapping properties fields, left)
  | .item :: _ =>
    if place = .field then
      (flushItems? inner bound tokens).map fun (items, left) =>
        (.sequence properties items, left)
    else if properties.isEmpty then none
    else some (.scalar properties "" true, tokens)
  | _ => if properties.isEmpty then none else some (.scalar properties "" true, tokens)

/-- A node that nests at most `depth` levels. -/
def node? (handles : Entries String) : Nat → Place → Parse Node
  | 0, _, _ => none
  | _ + 1, _, .reference id :: tokens => some (.reference id, tokens)
  | depth + 1, place, tokens => do
    let (properties, tokens) ← properties? handles tokens
    content? (node? handles depth) place properties tokens

/-! ## §4. Documents -/

/-- The handles that a text declares, on top of the standard ones.  Nothing may be declared
    twice, and the version must be one that is known. -/
def declaredHandles? (versioned : Bool) (declared : Entries String) :
    List (Token String) → Option (Entries String)
  | [] => some (standardHandles.filter (fun (handle, _) => !Entries.has handle declared)
      ++ declared)
  | .version major minor :: tokens =>
    if versioned ∨ major ≠ 1 ∨ (minor ≠ 1 ∧ minor ≠ 2) then none
    else declaredHandles? true declared tokens
  | .tagHandle handle text :: tokens =>
    if Entries.has handle declared then none
    else declaredHandles? versioned (Entries.put handle text declared) tokens
  | _ :: _ => none

/-- Whether a document holds nothing in front of this token. -/
def endsDocument (token : Token Nat) : Bool :=
  token.isDeclaration || token == .documentStart || token == .documentEnd

/-- The only document of a text. -/
def document? (tokens : List (Token String)) : Option Node := do
  let declarations := tokens.takeWhile Token.isDeclaration
  let handles ← declaredHandles? false [] declarations
  let tokens ← Token.bind [] (tokens.drop declarations.length)
  let node := node? handles (tokens.length + 1) .block
  let (root, rest) ← match tokens with
    | .documentStart :: rest =>
      if rest.isEmpty then pure (missing, []) else orMissing endsDocument node rest
    | _ =>
      if !declarations.isEmpty then none
      else if tokens.isEmpty then pure (missing, [])
      else node tokens
  if rest.all (· == .documentEnd) then return root else none

end Node

end DesignTokens.Yaml
