/-!
# Decimal integers

Writing integers in base ten, and reading signed and unsigned 64-bit integers: an optional sign,
at least one digit, a value in range, and nothing else.
-/

namespace WideColumn.Decimal

/-- The digits of a natural number. -/
def digits (n : Nat) : List Char := Nat.toDigits 10 n

/-- The digits of an integer behind its sign; only `-` is written. -/
def intText (n : Int) : List Char :=
  if n < 0 then '-' :: digits n.natAbs else digits n.natAbs

/-- The value of a run of digits. -/
def ofDigits (cs : List Char) : Nat := cs.foldl (fun n c => 10 * n + (c.toNat - '0'.toNat)) 0

/-- The value of a non-empty run of digits and nothing else. -/
def readNat? (cs : List Char) : Option Nat :=
  if cs.isEmpty || !cs.all Char.isDigit then none else some (ofDigits cs)

/-- Split off an optional sign; the flag says whether it was `-`. -/
def splitSign : List Char → Bool × List Char
  | '-' :: cs => (true, cs)
  | '+' :: cs => (false, cs)
  | cs => (false, cs)

/-- The value as a signed 64-bit integer, if it fits. -/
def toInt64? (n : Int) : Option Int64 :=
  if Int64.minValue.toInt ≤ n ∧ n ≤ Int64.maxValue.toInt then some (Int64.ofInt n) else none

/-- Read a signed 64-bit integer. -/
def readInt64? (cs : List Char) : Option Int64 := do
  let (negative, ds) := splitSign cs
  let n ← readNat? ds
  toInt64? (if negative then -(n : Int) else n)

/-- Read an unsigned 64-bit integer; a `-` is no sign here. -/
def readUInt64? (cs : List Char) : Option UInt64 := do
  let (negative, ds) := splitSign cs
  let n ← readNat? ds
  if negative || UInt64.size ≤ n then none else some (UInt64.ofNat n)

end WideColumn.Decimal
