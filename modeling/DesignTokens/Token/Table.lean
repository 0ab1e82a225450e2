/-
  DesignTokens.Token.Table — the tokens of an export tree.

  Every scalar of the tree but null is a token.  It is published as a custom property whose name
  is made from a common stem and the keys that lead to the scalar: characters that are no ASCII
  letters, digits, dashes or underscores become dashes, and so do the joints between keys.

  A table is filled along the tree.  Beside the tokens it keeps the position of each of them, by
  which a token is found again under its place.
-/
import DesignTokens.Json.Printer

namespace DesignTokens

/-! ## §1. Names -/

/-- A name part with the characters that a property name can hold. -/
def Token.sanitize (s : String) : List Char :=
  s.toList.map fun c => if c.isAlphanum || c == '-' || c == '_' then c else '-'

/-- The name of the custom property for a place.  A dash joins each key to what stands in front
    of it, once something does. -/
def Token.propertyName (stem : String) (place : List String) : String :=
  String.ofList (place.foldl step (['-', '-'] ++ sanitize stem))
where
  /-- The name with one more key. -/
  step (name : List Char) (key : String) : List Char :=
    (if 2 < name.length then name ++ ['-'] else name) ++ sanitize key

/-! ## §2. Tokens -/

/-- An exported value with its place and the name of its property. -/
structure Token where
  place : List String
  property : String
  value : Tree
deriving Repr, DecidableEq

namespace Token

/-- The token for a value at a place. -/
def ofPlace (stem : String) (place : List String) (value : Tree) : Token :=
  { place, property := propertyName stem place, value }

/-- The value as it stands in a style sheet. -/
def cssValue (t : Token) : String :=
  match t.value with
  | .str s => s
  | value => Json.write value

/-- A reference to the property. -/
def reference (t : Token) : String := "var(" ++ t.property ++ ")"

end Token

/-- The tokens of an export tree in document order, and the position of each under its place. -/
structure TokenTable where
  tokens : List Token
  index : List (List String × Nat)
deriving Repr, DecidableEq

namespace TokenTable

/-- The table without tokens. -/
def empty : TokenTable := { tokens := [], index := [] }

/-- The table with one more token.  Of several tokens with one place the last is indexed. -/
def push (table : TokenTable) (token : Token) : TokenTable :=
  { tokens := table.tokens ++ [token]
    index := Entries.put token.place table.tokens.length table.index }

mutual

/-- The table with the tokens of a tree that lies at a place. -/
def collect (stem : String) (place : List String) (table : TokenTable) : Tree → TokenTable
  | .obj fields => collectFields stem place table fields
  | .arr items => collectItems stem place 0 table items
  | .null => table
  | .bool b => table.push (.ofPlace stem place (.bool b))
  | .num n => table.push (.ofPlace stem place (.num n))
  | .str s => table.push (.ofPlace stem place (.str s))

/-- The table with the tokens of items of an array, the first of which has the position
    `index`. -/
def collectItems (stem : String) (place : List String) (index : Nat) (table : TokenTable) :
    List Tree → TokenTable
  | [] => table
  | item :: rest =>
    collectItems stem place (index + 1) (collect stem (place ++ [toString index]) table item) rest

/-- The table with the tokens of fields of an object. -/
def collectFields (stem : String) (place : List String) (table : TokenTable) :
    List (String × Tree) → TokenTable
  | [] => table
  | (key, value) :: rest =>
    collectFields stem place (collect stem (place ++ [key]) table value) rest

end

/-- The tokens of a tree. -/
def ofTree (stem : String) (exports : Tree) : TokenTable := collect stem [] empty exports

/-- The token at a place. -/
def get? (table : TokenTable) (place : List String) : Option Token :=
  (Entries.get? place table.index).bind fun position => table.tokens[position]?

/-- How many tokens there are. -/
def size (table : TokenTable) : Nat := table.tokens.length

/-! ## §3. Style sheets -/

/-- The declaration of a property. -/
def declaration (token : Token) : String :=
  "  " ++ token.property ++ ": " ++ token.cssValue ++ ";\n"

/-- A style sheet that declares every token for a selector. -/
def css (table : TokenTable) (selector : String) : String :=
  selector ++ " \x7b\n" ++ String.join (table.tokens.map declaration) ++ "\x7d\n"

end TokenTable

end DesignTokens
