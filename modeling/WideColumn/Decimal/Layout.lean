import WideColumn.Decimal.Shortest

/-!
# Writing doubles

A double is written with its shortest digits, positionally while its size is moderate and with an
exponent otherwise. `Layout` says where that border lies and leaves open no other choice either.
-/

namespace WideColumn.Decimal

/-- How doubles are written. -/
structure Layout where
  /-- Least exponent of a positional number. -/
  least : Int
  /-- Greatest exponent of a positional number. -/
  greatest : Int
  /-- Whether an exponent without minus sign has a plus sign. -/
  plusSign : Bool
  /-- Which of two equally near decimals is written. -/
  tie : Tie

/-- Doubles in filters, messages and answers: positional from `0.0001` to below `10 ^ 16`, of two
decimals the greater. -/
def plain : Layout := ⟨-4, 15, false, .up⟩

/-- Place the digits `ds` of `ds · 10 ^ e` around a point, with a digit on either side. -/
def positional (ds : List Char) (e : Int) : List Char :=
  let point : Int := ds.length + e
  if point ≤ 0 then '0' :: '.' :: List.replicate (-point).toNat '0' ++ ds
  else if 0 ≤ e then ds ++ List.replicate e.toNat '0' ++ ['.', '0']
  else ds.take point.toNat ++ '.' :: ds.drop point.toNat

/-- One digit, the others behind a point if there are any, and the exponent. -/
def scientific (plusSign : Bool) (ds : List Char) (e : Int) : List Char :=
  let fraction := match ds.tail with
    | [] => []
    | rest => '.' :: rest
  let exponent : Int := ds.length + e - 1
  let sign := if plusSign ∧ 0 ≤ exponent then ['+'] else []
  ds.take 1 ++ fraction ++ 'e' :: sign ++ intText exponent

/-- Write `c · 10 ^ e`. -/
def Layout.write (layout : Layout) (c : Nat) (e : Int) : List Char :=
  let ds := digits c
  let size : Int := ds.length + e - 1
  if layout.least ≤ size && size ≤ layout.greatest then positional ds e
  else scientific layout.plusSign ds e

/-- Write a double without its sign. -/
def Layout.magnitude (layout : Layout) (exponent fraction : Nat) : List Char :=
  if exponent = 2047 then "inf".toList
  else if exponent = 0 then
    if fraction = 0 then "0.0".toList
    else
      let (c, e) := shortest layout.tie fraction (-1074)
      layout.write c e
  else
    let (c, e) := shortest layout.tie (Nat.pow 2 52 + fraction) (exponent - 1075)
    layout.write c e

/-- The text of a double. -/
def Layout.text (layout : Layout) (x : Float) : String :=
  let bits := x.toBits.toNat
  let exponent := bits / Nat.pow 2 52 % 2048
  let fraction := bits % Nat.pow 2 52
  if exponent = 2047 ∧ fraction ≠ 0 then "NaN"
  else
    let body := layout.magnitude exponent fraction
    String.ofList (if bits < Nat.pow 2 63 then body else '-' :: body)

/-- Whether a double is a number. -/
def isFinite (x : Float) : Bool := x.toBits.toNat / Nat.pow 2 52 % 2048 != 2047

end WideColumn.Decimal
