import WideColumn.Json.Basic
import WideColumn.Text.Quoted
import WideColumn.Decimal.Layout

/-!
# Writing JSON

The compact text of a value: no blanks, members in their order. In strings only the quote, the
backslash and control characters are escaped.
-/

namespace WideColumn.Json

/-- Numbers in JSON text: positional from `0.00001` to below `10 ^ 16`, exponents with their sign,
of two decimals the one with the even last digit. -/
def numbers : Decimal.Layout := ⟨-5, 15, true, .even⟩

/-- The character behind the backslash of a two-character escape. -/
def shortEscape? : Char → Option Char
  | '"' => some '"'
  | '\\' => some '\\'
  | '\x08' => some 'b'
  | '\x0c' => some 'f'
  | '\n' => some 'n'
  | '\r' => some 'r'
  | '\t' => some 't'
  | _ => none

/-- One character inside a string. -/
def writeChar (c : Char) : List Char :=
  match shortEscape? c with
  | some e => ['\\', e]
  | none =>
    if c.toNat < 0x20 then "\\u00".toList ++ (Text.hexByte (UInt8.ofNat c.toNat)).toList else [c]

/-- A string between quotes. -/
def writeString (s : String) : List Char := '"' :: s.toList.flatMap writeChar ++ ['"']

mutual
/-- The characters of a value. -/
def write : Json → List Char
  | .null => "null".toList
  | .bool b => (if b then "true" else "false").toList
  | .integer n => Decimal.intText n
  | .real x => (numbers.text x).toList
  | .string s => writeString s
  | .array [] => "[]".toList
  | .array (x :: xs) => '[' :: write x ++ writeItems xs
  | .object [] => ['\x7b', '\x7d']
  | .object ((k, x) :: ms) => '\x7b' :: writeString k ++ ':' :: write x ++ writeMembers ms

/-- The items after the first, and the end of the array. -/
def writeItems : List Json → List Char
  | [] => [']']
  | x :: xs => ',' :: write x ++ writeItems xs

/-- The members after the first, and the end of the object. -/
def writeMembers : List (String × Json) → List Char
  | [] => ['\x7d']
  | (k, x) :: ms => ',' :: writeString k ++ ':' :: write x ++ writeMembers ms
end

/-- The text of a value. -/
def text (j : Json) : String := String.ofList j.write

end WideColumn.Json
