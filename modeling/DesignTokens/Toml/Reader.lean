/-
  DesignTokens.Toml.Reader — reading TOML texts.

  A text is a list of lines: fields, and headers that say which table the fields behind them
  belong to.  Arrays and inline tables may nest less than `deepest` levels, and a key may have
  fewer than `deepest` parts.
-/
import DesignTokens.Toml.Moment
import DesignTokens.Toml.Number
import DesignTokens.Toml.Quoted
import DesignTokens.Toml.Table

namespace DesignTokens.Toml

open Text (Read readSome? startsWith)

/-- How many levels values may not nest any more, and parts a key may not have any more. -/
def deepest : Nat := 80

/-! ## §1. Keys -/

/-- A part of a key: a string of one line, or a word. -/
def keyPart? : Read String := fun s =>
  let found := match s with
    | '"' :: s => basic? s
    | '\'' :: s => literal? s
    | s => readSome? isKeyChar s
  found.map fun (text, rest) => (String.ofList text, rest)

/-- The parts of a key behind its first, with blanks around the dots. -/
def moreKeyParts? : Nat → Read (List String)
  | 0, _ => none
  | bound + 1, s =>
    match skipBlanks s with
    | '.' :: s => do
      let (part, s) ← keyPart? (skipBlanks s)
      let (others, s) ← moreKeyParts? bound s
      return (part :: others, s)
    | s => some ([], s)

/-- A key with the blanks around it. -/
def key? : Read Key := fun s => do
  let (first, s) ← keyPart? (skipBlanks s)
  let (others, s) ← moreKeyParts? (s.length + 1) s
  if deepest ≤ others.length + 1 then none
  let parts := first :: others
  return (⟨parts.dropLast, parts.getLast?.getD first⟩, s)

/-! ## §2. Values -/

/-- The object that stands for a moment. -/
def momentTree (m : Moment) : Tree := .obj [("$__toml_private_datetime", .str m.text)]

/-- A value that is no container. -/
def scalar? : Read Tree
  | 't' :: 'r' :: 'u' :: 'e' :: rest => some (.bool true, rest)
  | 'f' :: 'a' :: 'l' :: 's' :: 'e' :: rest => some (.bool false, rest)
  | s =>
    if startsWith (fun c => c == '"' || c == '\'') s then
      (string? s).map fun (text, rest) => (.str text, rest)
    else match moment? s with
      | some (m, rest) => some (momentTree m, rest)
      | none => double? s <|> integer? s

/-- The items of an array behind its opening bracket or a comma. -/
def items? (value : Read Tree) : Nat → Read (List Tree)
  | 0, _ => none
  | bound + 1, s =>
    match skipLines false s with
    | ']' :: rest => some ([], rest)
    | s => do
      let (item, s) ← value s
      match skipLines false s with
      | ']' :: rest => return ([item], rest)
      | ',' :: rest =>
        let (others, rest) ← items? value bound rest
        return (item :: others, rest)
      | _ => none

/-- A key, its equals sign and its value. -/
def field? (value : Read Tree) : Read (Key × Tree) := fun s => do
  let (key, s) ← key? s
  match s with
  | '=' :: s =>
    let (tree, s) ← value (skipBlanks s)
    return ((key, tree), s)
  | _ => none

/-- The fields of an inline table behind its opening brace or a comma. -/
def inlineFields? (value : Read Tree) : Nat → Read (List (Key × Tree))
  | 0, _ => none
  | bound + 1, s => do
    let (first, s) ← field? value s
    match skipBlanks s with
    | '}' :: rest => return ([first], rest)
    | ',' :: rest =>
      let (others, rest) ← inlineFields? value bound rest
      return (first :: others, rest)
    | _ => none

/-- An inline table behind its opening brace. -/
def inlineTable? (value : Read Tree) : Read Tree := fun s => do
  let (writes, rest) ← match skipBlanks s with
    | '}' :: rest => pure ([], rest)
    | _ => inlineFields? value (s.length + 1) s
  let fields ← writes.foldlM addField? []
  return (.obj (fieldTrees fields), rest)

/-- A value whose containers nest at most `depth` levels. -/
def value? : Nat → Read Tree
  | 0, s => scalar? s
  | depth + 1, '[' :: rest =>
    (items? (value? depth) (rest.length + 1) rest).map fun (items, left) => (.arr items, left)
  | depth + 1, '{' :: rest => inlineTable? (value? depth) rest
  | _, s => scalar? s

/-! ## §3. Lines -/

/-- A line that is not empty. -/
inductive Line where
  | field (key : Key) (value : Tree)
  | header (key : Key) (repeated : Bool)
deriving Repr

/-- A header behind its opening bracket. -/
def header? : Read Line
  | '[' :: s => do
    let (key, s) ← key? s
    match s with
    | ']' :: ']' :: s => return (.header key true, s)
    | _ => none
  | s => do
    let (key, s) ← key? s
    match s with
    | ']' :: s => return (.header key false, s)
    | _ => none

/-- The lines of a text. -/
def lines? (bound : Nat) (s : List Char) : Option (List Line) :=
  match bound with
  | 0 => none
  | bound + 1 =>
    match skipLines false s with
    | [] => some []
    | c :: s => do
      let (line, rest) ←
        if c = '[' then header? s
        else (field? (value? (deepest - 1)) (c :: s)).map fun ((key, tree), rest) =>
          (Line.field key tree, rest)
      let others ← lines? bound (← lineEnd? rest)
      return line :: others

/-- The fields in front of the first header, and the sections behind it. -/
def sections : List Line → List (Key × Tree) × List Section
  | [] => ([], [])
  | .field key tree :: lines =>
    let (fields, others) := sections lines
    ((key, tree) :: fields, others)
  | .header key repeated :: lines =>
    let (fields, others) := sections lines
    ([], ⟨key, repeated, fields⟩ :: others)

/-- The tree that a TOML text holds.  A mark of the encoding at its front is left out. -/
def parse? (s : List Char) : Option Tree := do
  let s := if startsWith (·.toNat == 0xFEFF) s then s.tail else s
  let lines ← lines? (s.length + 1) s
  let (fields, others) := sections lines
  document? fields others

end DesignTokens.Toml
