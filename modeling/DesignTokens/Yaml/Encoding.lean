/-
  DesignTokens.Yaml.Encoding — the characters of a YAML text in bytes.

  A mark at the front of the bytes tells their encoding and is no part of the text.  Without a
  mark the encoding is UTF-8.
-/

namespace DesignTokens.Yaml

/-- The characters of code units of 16 bits.  The halves of a pair must stand together. -/
def chars? : List Nat → Option (List Char)
  | [] => some []
  | n :: units =>
    if n < 0xD800 ∨ 0xE000 ≤ n then (chars? units).map (Char.ofNat n :: ·)
    else match units with
      | m :: units =>
        if n < 0xDC00 ∧ 0xDC00 ≤ m ∧ m < 0xE000 then
          (chars? units).map
            (Char.ofNat (0x10000 + (n - 0xD800) * 0x400 + (m - 0xDC00)) :: ·)
        else none
      | [] => none

/-- Pairs of bytes as code units; `join` says which byte comes first. -/
def units? (join : Nat → Nat → Nat) : List UInt8 → Option (List Nat)
  | [] => some []
  | [_] => none
  | a :: b :: bytes => (units? join bytes).map (join a.toNat b.toNat :: ·)

/-- The characters that bytes encode. -/
def decode? (bytes : ByteArray) : Option (List Char) :=
  match bytes.toList with
  | 0xFF :: 0xFE :: units => (units? (fun a b => a + 256 * b) units).bind chars?
  | 0xFE :: 0xFF :: units => (units? (fun a b => 256 * a + b) units).bind chars?
  | all =>
    let text? := (String.fromUTF8? bytes).map String.toList
    if all.take 3 = [0xEF, 0xBB, 0xBF] then text?.map List.tail else text?

end DesignTokens.Yaml
