/-
  DesignTokens.Yaml.Token — the tokens of a YAML text.

  Tokens say where collections start and end, whether that is written by brackets or by
  indentation.  An anchor and a reference carry a label: in a text that is a name, and `bind`
  turns it into a number, the same for an anchor and the references to it.
-/
import DesignTokens.Entries

namespace DesignTokens.Yaml

/-- The two kinds of collections. -/
inductive Collection where
  | sequence
  | mapping
deriving Repr, DecidableEq

/-- A token.  Labels are of type `label`. -/
inductive Token (label : Type) where
  /-- The version that the text declares. -/
  | version (major minor : Nat)
  /-- A short handle for tags, and the text that it stands for. -/
  | tagHandle (handle text : String)
  | documentStart
  | documentEnd
  /-- The start of a collection that indentation bounds. -/
  | openBlock (kind : Collection)
  | closeBlock
  /-- The start of a collection in brackets. -/
  | openFlow (kind : Collection)
  | closeFlow (kind : Collection)
  /-- The dash in front of an item. -/
  | item
  | comma
  /-- What follows is a key. -/
  | key
  /-- What follows is the value of a key. -/
  | value
  | anchor (label : label)
  | reference (label : label)
  | tag (handle suffix : String)
  | scalar (text : String) (plain : Bool)
deriving Repr, DecidableEq

namespace Token

/-- Whether a token is a declaration in front of a document. -/
def isDeclaration {label : Type} : Token label → Bool
  | .version .. | .tagHandle .. => true
  | _ => false

/-- Numbers the labels.  An anchor gets the number of names that are known by then, so an anchor
    with a known name may get the number of another; a reference gets the number that its name
    has by then. -/
def bind (names : Entries Nat) : List (Token String) → Option (List (Token Nat))
  | [] => some []
  | t :: tokens =>
    match t with
    | .anchor name =>
      (bind (Entries.put name names.length names) tokens).map (.anchor names.length :: ·)
    | .reference name => do
      let id ← Entries.get? name names
      let rest ← bind names tokens
      return .reference id :: rest
    | .version major minor => (bind names tokens).map (.version major minor :: ·)
    | .tagHandle handle text => (bind names tokens).map (.tagHandle handle text :: ·)
    | .documentStart => (bind names tokens).map (.documentStart :: ·)
    | .documentEnd => (bind names tokens).map (.documentEnd :: ·)
    | .openBlock kind => (bind names tokens).map (.openBlock kind :: ·)
    | .closeBlock => (bind names tokens).map (.closeBlock :: ·)
    | .openFlow kind => (bind names tokens).map (.openFlow kind :: ·)
    | .closeFlow kind => (bind names tokens).map (.closeFlow kind :: ·)
    | .item => (bind names tokens).map (.item :: ·)
    | .comma => (bind names tokens).map (.comma :: ·)
    | .key => (bind names tokens).map (.key :: ·)
    | .value => (bind names tokens).map (.value :: ·)
    | .tag handle suffix => (bind names tokens).map (.tag handle suffix :: ·)
    | .scalar text plain => (bind names tokens).map (.scalar text plain :: ·)

end Token

end DesignTokens.Yaml
