import WideColumn.Json.Basic
import WideColumn.Decimal.Nearest

/-!
# Numbers in JSON text

A number without fraction and exponent is an integer if 64 bits hold it. Every other number is
read as a 64-bit mantissa, to which digits are added as long as they fit, scaled once by a power
of ten in double arithmetic; a number too great for a double has no value.
-/

namespace WideColumn.Json

/-- A mantissa with one more digit, if 64 bits hold it. -/
def pushDigit? (m : Nat) (c : Char) : Option Nat :=
  let n := 10 * m + (c.toNat - '0'.toNat)
  if n < UInt64.size then some n else none

/-- Add the digits before the point; also the number of digits dropped for want of room. -/
def pushWhole (m : Nat) : List Char → Nat × Nat
  | [] => (m, 0)
  | c :: cs =>
    match pushDigit? m c with
    | some m' => pushWhole m' cs
    | none => (m, cs.length + 1)

/-- Add the digits behind the point; also the number of digits added. -/
def pushFraction (m : Nat) : List Char → Nat × Nat
  | [] => (m, 0)
  | c :: cs =>
    match pushDigit? m c with
    | some m' => ((pushFraction m' cs).1, (pushFraction m' cs).2 + 1)
    | none => (m, 0)

/-- A power of ten as a double. -/
def tenPow (k : Nat) : Float := Decimal.nearest false (Nat.pow 10 k) 1

/-- Divide by a power of ten, at most `10 ^ 308` at a time; three such steps reach zero. -/
def divideTenPow (x : Float) (k : Nat) : Float :=
  let steps := (k - 1) / 308
  let y := Nat.repeat (· / tenPow 308) (min steps 3) x
  y / tenPow (min (k - 308 * steps) 308)

/-- A mantissa scaled by a power of ten. -/
def scale? (m : Nat) (e : Int) : Option Float :=
  let x := (UInt64.ofNat m).toFloat
  if e < 0 then some (divideTenPow x (-e).toNat)
  else if m = 0 then some x
  else if 308 < e then none
  else
    let y := x * tenPow e.toNat
    if y.isInf then none else some y

/-- The parts of a number. -/
structure NumberParts where
  /-- Whether it starts with a minus sign. -/
  negative : Bool
  /-- The digits before the point. -/
  whole : List Char
  /-- The digits behind the point, if there is one. -/
  fraction : Option (List Char)
  /-- The exponent, if there is one. -/
  exponent : Option Int

/-- The value of a number. -/
def NumberParts.value? (p : NumberParts) : Option Json := do
  let (m, dropped) := pushWhole 0 p.whole
  if p.fraction.isNone && p.exponent.isNone && dropped == 0 && !(p.negative && m == 0) &&
      !(p.negative && Nat.pow 2 63 < m) then
    return .integer (if p.negative then -(m : Int) else m)
  let (m, added) := pushFraction m (p.fraction.getD [])
  let x ← scale? m (dropped - added + p.exponent.getD 0)
  return .real (if p.negative then -x else x)

/-- Split off a non-empty run of digits. -/
def takeDigits? (cs : List Char) : Option (List Char × List Char) :=
  let ds := cs.takeWhile Char.isDigit
  if ds.isEmpty then none else some (ds, cs.dropWhile Char.isDigit)

/-- Split off the digits before the point: a zero alone or digits that start with another. -/
def takeWhole? : List Char → Option (List Char × List Char)
  | '0' :: cs => some (['0'], cs)
  | cs => takeDigits? cs

/-- Split off a point and the digits behind it, if there is a point. -/
def takeFraction? : List Char → Option (Option (List Char) × List Char)
  | '.' :: cs => (takeDigits? cs).map fun (ds, rest) => (some ds, rest)
  | cs => some (none, cs)

/-- Split off an exponent, if there is one. -/
def takeExponent? : List Char → Option (Option Int × List Char)
  | c :: cs =>
    if c == 'e' || c == 'E' then do
      let (negative, cs) := Decimal.splitSign cs
      let (ds, rest) ← takeDigits? cs
      let n := Decimal.ofDigits ds
      some (some (if negative then -(n : Int) else n), rest)
    else some (none, c :: cs)
  | [] => some (none, [])

/-- Read a number from the front of a text. It has no value if it is too great. -/
def takeNumber? (cs : List Char) : Option (Option Json × List Char) := do
  let (negative, cs) := match cs with
    | '-' :: cs => (true, cs)
    | cs => (false, cs)
  let (whole, cs) ← takeWhole? cs
  let (fraction, cs) ← takeFraction? cs
  let (exponent, cs) ← takeExponent? cs
  return (NumberParts.value? ⟨negative, whole, fraction, exponent⟩, cs)

end WideColumn.Json
