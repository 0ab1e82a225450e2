/-
  DesignTokens.Format.Basic — reading a document in the format that its name asks for.

  The extension of the path, in lower case, chooses the format.  A text that cannot be read in
  its format is refused as a whole.
-/
import DesignTokens.DocPath
import DesignTokens.Json.Reader
import DesignTokens.Toml.Reader
import DesignTokens.Yaml.Reader

namespace DesignTokens.Format

/-- Why a document cannot be read. -/
inductive FormatError where
  /-- No format has this extension. -/
  | unsupported (extension : String)
  /-- The bytes are no text. -/
  | utf8
  | json
  | yaml
  | toml
deriving Repr, DecidableEq

/-- The text of a failure, where it is one of this library. -/
def FormatError.message? : FormatError → Option String
  | .unsupported extension => some ("unsupported document format `" ++ extension ++ "`")
  | .utf8 => some "document is not valid UTF-8"
  | .json | .yaml | .toml => none

/-- A text in lower case, as far as it is ASCII. -/
def lowerCase (s : String) : String := String.ofList (s.toList.map Char.toLower)

/-- A document, read in the format that the path asks for. -/
def parse (bytes : ByteArray) (path : DocPath) : Except FormatError Tree :=
  let extension := lowerCase (path.extension?.getD "")
  let text? := String.fromUTF8? bytes
  if extension = "json" then
    match text?.bind fun text => Json.parse? text.toList with
    | some t => .ok t
    | none => .error .json
  else if extension = "yaml" ∨ extension = "yml" then
    match Yaml.parse? bytes with
    | some t => .ok t
    | none => .error .yaml
  else if extension = "toml" then
    match text? with
    | none => .error .utf8
    | some text =>
      match Toml.parse? text.toList with
      | some t => .ok t
      | none => .error .toml
  else .error (.unsupported extension)

end DesignTokens.Format
