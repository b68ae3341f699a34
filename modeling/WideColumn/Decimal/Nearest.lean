import WideColumn.Decimal.Integer

/-!
# Reading doubles

A decimal number stands for the double nearest to it; of two equally near ones the one with the
even mantissa. The rounding is done in natural numbers, so nothing is lost on the way.
-/

namespace WideColumn.Decimal

/-- Round a quotient to the nearest integer, halves to the even one. -/
def divRoundEven (num den : Nat) : Nat :=
  let d := num / den
  let r := num % den
  if 2 * r < den then d else if den < 2 * r then d + 1 else d + d % 2

/-- `num / den` divided by `2 ^ q`, again as a quotient. -/
def scaleDown (num den : Nat) (q : Int) : Nat × Nat :=
  if 0 ≤ q then (num, den * Nat.pow 2 q.toNat) else (num * Nat.pow 2 (-q).toNat, den)

/-- The greatest `e` with `2 ^ e ≤ num / den`. -/
def floorLog2 (num den : Nat) : Int :=
  let e : Int := (num.log2 : Int) - den.log2
  let (n, d) := scaleDown num den e
  if n < d then e - 1 else e

/-- The bits of positive infinity. -/
def infinityBits : Nat := 0x7FF0000000000000

/-- The bits of the double nearest to the positive quotient `num / den`: the mantissa is counted
in units of `2 ^ q`, and a mantissa rounded up to `2 ^ 53` carries into the exponent field. -/
def nearestBits (num den : Nat) : Nat :=
  if num = 0 then 0
  else
    let q := max (floorLog2 num den - 52) (-1074)
    let (n, d) := scaleDown num den q
    min ((q + 1074).toNat * Nat.pow 2 52 + divRoundEven n d) infinityBits

/-- The double nearest to a quotient with a sign. -/
def nearest (negative : Bool) (num den : Nat) : Float :=
  Float.ofBits (UInt64.ofNat (nearestBits num den + if negative then Nat.pow 2 63 else 0))

/-- The double nearest to `m · 10 ^ e`. Beyond `10 ^ 310` all is infinity and below `10 ^ (-330)`
all is zero, so no greater power of ten is ever formed. -/
def nearestDecimal (negative : Bool) (m : Nat) (e : Int) : Float :=
  let size : Int := (digits m).length + e
  if m = 0 || size < -330 then nearest negative 0 1
  else if 310 < size then nearest negative (Nat.pow 2 1024) 1
  else if 0 ≤ e then nearest negative (m * Nat.pow 10 e.toNat) 1
  else nearest negative m (Nat.pow 10 (-e).toNat)

/-- The exponent part after a mantissa: nothing, or `e` with an optional sign and digits. -/
def readExponent? : List Char → Option Int
  | [] => some 0
  | c :: cs =>
    if c == 'e' || c == 'E' then do
      let (negative, ds) := splitSign cs
      let n ← readNat? ds
      some (if negative then -(n : Int) else n)
    else none

/-- Read a double without its sign: digits with an optional point and at least one digit on
either side of it, then an optional exponent; or a word for infinity or for no number. -/
def readUnsigned? (negative : Bool) (cs : List Char) : Option Float :=
  match String.ofList (cs.map Char.toLower) with
  | "inf" | "infinity" => some (nearest negative (Nat.pow 2 1024) 1)
  | "nan" => some (Float.ofBits 0x7FF8000000000000)
  | _ => do
    let whole := cs.takeWhile Char.isDigit
    let (fraction, rest) :=
      match cs.dropWhile Char.isDigit with
      | '.' :: r => (r.takeWhile Char.isDigit, r.dropWhile Char.isDigit)
      | r => ([], r)
    let m ← readNat? (whole ++ fraction)
    let e ← readExponent? rest
    some (nearestDecimal negative m (e - fraction.length))

/-- Read a double. -/
def readDouble? (cs : List Char) : Option Float :=
  let (negative, rest) := splitSign cs
  readUnsigned? negative rest

end WideColumn.Decimal
