import WideColumn.Text.Blank

/-!
# Quoted text in messages

Messages show text between double quotes and bytes behind `b`. What would be invisible or break
the line is written as an escape, so a message stays one readable line.
-/

namespace WideColumn

/-- A sequence of bytes. -/
abbrev Bytes := List UInt8

namespace Text

/-- Code points that are written as an escape in quoted text besides controls and blanks: marks
that combine with the character before, format characters and private use. -/
def invisibleRanges : List (Nat × Nat) :=
  [(0xAD, 0xAD), (0x300, 0x36F), (0x483, 0x489), (0x591, 0x5BD), (0x600, 0x605), (0x610, 0x61A),
    (0x61C, 0x61C), (0x64B, 0x65F), (0x6DD, 0x6DD), (0x70F, 0x70F), (0x180E, 0x180E),
    (0x1AB0, 0x1ACE), (0x1DC0, 0x1DFF), (0x200B, 0x200F), (0x202A, 0x202E), (0x2060, 0x206F),
    (0x20D0, 0x20F0), (0xE000, 0xF8FF), (0xFE00, 0xFE0F), (0xFE20, 0xFE2F), (0xFEFF, 0xFEFF),
    (0xFFF9, 0xFFFB), (0xE0001, 0xE0001), (0xE0020, 0xE007F), (0xE0100, 0xE01EF),
    (0xF0000, 0xFFFFD), (0x100000, 0x10FFFD)]

/-- Whether a character stands for itself in quoted text. -/
def isVisible (c : Char) : Bool :=
  c == ' ' ||
    !(c.toNat < 0x20 || (0x7F ≤ c.toNat && c.toNat ≤ 0x9F) || isBlank c ||
      inRanges invisibleRanges c)

/-- A number in hexadecimal, lower case, without leading zeros. -/
def hex (n : Nat) : String := String.ofList (Nat.toDigits 16 n)

/-- One character of quoted text. -/
def quoteChar (c : Char) : String :=
  match c with
  | '"' => "\\\""
  | '\\' => "\\\\"
  | '\n' => "\\n"
  | '\r' => "\\r"
  | '\t' => "\\t"
  | '\x00' => "\\0"
  | c => if isVisible c then c.toString else "\\u\x7b" ++ hex c.toNat ++ "\x7d"

/-- Text between double quotes. -/
def quote (s : String) : String := "\"" ++ String.join (s.toList.map quoteChar) ++ "\""

/-- A byte as two hexadecimal digits. -/
def hexByte (b : UInt8) : String := if b < 16 then "0" ++ hex b.toNat else hex b.toNat

/-- One byte of quoted bytes: printable ASCII stands for itself. -/
def quoteByte (b : UInt8) : String :=
  match Char.ofNat b.toNat with
  | '"' => "\\\""
  | '\\' => "\\\\"
  | '\n' => "\\n"
  | '\r' => "\\r"
  | '\t' => "\\t"
  | '\x00' => "\\0"
  | c => if 0x20 ≤ b && b < 0x7F then c.toString else "\\x" ++ hexByte b

/-- Bytes between double quotes, marked by a `b` in front. -/
def quoteBytes (bs : Bytes) : String := "b\"" ++ String.join (bs.map quoteByte) ++ "\""

end Text

end WideColumn
