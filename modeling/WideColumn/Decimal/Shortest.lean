import WideColumn.Decimal.Integer

/-!
# The shortest decimal of a double

A finite double stands for every real number that rounds to it. `shortest` finds the decimal with
the fewest digits among them and, of those, the one nearest to the double itself. Two may be equally
near; `Tie` says which of them is taken.
-/

namespace WideColumn.Decimal

/-- Which of two neighbours on a grid is taken if they are equally near. -/
inductive Tie where
  /-- The greater one. -/
  | up
  /-- The one with the even last digit. -/
  | even
deriving DecidableEq, Inhabited

/-- Whether the lower one, `c`, of two equally near neighbours is taken. -/
def Tie.takesLower : Tie → Nat → Bool
  | .up, _ => false
  | .even, c => c % 2 == 0

/-- The reals that round to a double, as fractions of one denominator. -/
structure Window where
  /-- Half way to the next double below. -/
  low : Nat
  /-- The double itself. -/
  value : Nat
  /-- Half way to the next double above. -/
  high : Nat
  /-- The common denominator. -/
  den : Nat
  /-- Whether the two ends round to the double too. -/
  closed : Bool

/-- The window of `m · 2 ^ q`. Below a power of two the doubles lie twice as dense, except at the
foot of the exponent range. -/
def Window.ofBinary (m : Nat) (q : Int) : Window :=
  let below := if m = Nat.pow 2 52 ∧ -1074 < q then 1 else 2
  let up := Nat.pow 2 (q - 2).toNat
  { low := (4 * m - below) * up
    value := 4 * m * up
    high := (4 * m + 2) * up
    den := Nat.pow 2 (2 - q).toNat
    closed := m % 2 = 0 }

/-- Whether `c · num / den` lies in the window. -/
def Window.contains (w : Window) (c num den : Nat) : Bool :=
  let x := c * num * w.den
  if w.closed then w.low * den ≤ x && x ≤ w.high * den
  else w.low * den < x && x < w.high * den

/-- The power of ten `p` with `10 ^ (p - 1) ≤ v < 10 ^ p` for the double `v`. -/
def Window.magnitude (w : Window) : Int :=
  if w.den ≤ w.value then (digits (w.value / w.den)).length
  else
    let d := (digits (w.den / w.value)).length
    if w.den ≤ w.value * Nat.pow 10 (d - 1) then 2 - d else 1 - d

/-- The multiple of `10 ^ e` nearest to the double among its two neighbours on that grid, if one
of them lies in the window. -/
def Window.onGrid (w : Window) (tie : Tie) (e : Int) : Option Nat :=
  let num := Nat.pow 10 e.toNat
  let den := Nat.pow 10 (-e).toNat
  let step := num * w.den
  let c := w.value * den / step
  let r := w.value * den % step
  match w.contains c num den, w.contains (c + 1) num den with
  | true, true =>
    some (if 2 * r < step ∨ (2 * r = step ∧ tie.takesLower c) then c else c + 1)
  | true, false => some c
  | false, true => some (c + 1)
  | false, false => none

/-- Move the zeros at the end of a number into the power of ten. -/
def stripZeros (c : Nat) (e : Int) : Nat × Int :=
  if h : c % 10 = 0 ∧ 0 < c then stripZeros (c / 10) (e + 1) else (c, e)
termination_by c
decreasing_by omega

/-- `c` and `e` such that `c · 10 ^ e` is the shortest decimal for `m · 2 ^ q`. Seventeen digits
are always enough. -/
def shortest (tie : Tie) (m : Nat) (q : Int) : Nat × Int :=
  let w := Window.ofBinary m q
  let p := w.magnitude
  let found := (List.range' 1 17).findSome? fun n : Nat =>
    (w.onGrid tie (p - n)).map fun c => (c, p - n)
  match found with
  | some (c, e) => stripZeros c e
  | none => (0, 0)

end WideColumn.Decimal
