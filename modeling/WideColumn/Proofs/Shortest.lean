import Mathlib.Tactic.LinearCombination
import WideColumn.Proofs.Double
import WideColumn.Proofs.Nearest
import WideColumn.Proofs.Numeral

/-!
# The shortest decimal of a double

Whatever decimal `shortest` finds lies in the window of the double, and with seventeen digits it
finds one (`shortest_holds`). The double nearest to such a decimal is the double itself, so the text
of every finite double is read as that double:

* `readDouble?_text` : finite doubles are read back from their text.
-/

namespace WideColumn.Decimal

/-! ### Digits and powers of ten -/

theorem lt_pow_length_digits (n : Nat) : n < 10 ^ (digits n).length :=
  (Nat.length_toDigits_le_iff (by norm_num) (List.length_pos_iff.2 (digits_ne_nil n))).1 le_rfl

theorem pow_length_digits_le {n : Nat} (hn : 0 < n) : 10 ^ ((digits n).length - 1) ≤ n := by
  have hlen := List.length_pos_iff.2 (digits_ne_nil n)
  rcases Nat.eq_zero_or_pos ((digits n).length - 1) with h0 | hpos
  · rw [h0]
    exact hn
  · by_contra hlt
    have := (Nat.length_toDigits_le_iff (by norm_num) hpos).2 (not_le.1 hlt)
    have hlen' : (digits n).length ≤ (digits n).length - 1 := this
    omega

theorem pow_ten_pos (n : Nat) : 0 < Nat.pow 10 n := Nat.pow_pos (by norm_num)

theorem ten_zpow_pos (e : Int) : (0 : ℚ) < 10 ^ e := zpow_pos (by norm_num) e

/-- A power of ten as a quotient. -/
theorem pow_div_pow_eq_zpow (e : Int) :
    ((Nat.pow 10 e.toNat : Nat) : ℚ) / (Nat.pow 10 (-e).toNat : Nat) = 10 ^ e := by
  simp only [Nat.pow_eq, Nat.cast_pow, Nat.cast_ofNat]
  rcases le_total 0 e with h | h
  · rw [Int.toNat_of_nonpos (by omega : -e ≤ 0), pow_zero, div_one, ← zpow_natCast,
      Int.toNat_of_nonneg h]
  · rw [Int.toNat_of_nonpos h, pow_zero, ← zpow_natCast, Int.toNat_of_nonneg (by omega),
      zpow_neg, one_div, inv_inv]

theorem stripZeros_eq (c : Nat) (e : Int) :
    ((stripZeros c e).1 : ℚ) * 10 ^ (stripZeros c e).2 = c * 10 ^ e := by
  fun_induction stripZeros c e with
  | case1 c e h ih =>
    have hc : (c : ℚ) = 10 * (c / 10 : Nat) := by
      have : c = 10 * (c / 10) := by omega
      exact_mod_cast this
    rw [ih, zpow_add_one₀ (by norm_num), hc]
    ring
  | case2 => rfl

/-! ### Windows and grids -/

namespace Window

theorem contains_iff (w : Window) (c num : Nat) {den : Nat} (hden : 0 < den) :
    w.contains c num den = true ↔ w.Holds (c * (num / den)) := by
  have hq : (0 : ℚ) < den := by exact_mod_cast hden
  have hv : (c * (num / den) * w.den : ℚ) = (c * num * w.den : Nat) / den := by
    push_cast
    ring
  have hlow : (w.low : ℚ) ≤ c * (num / den) * w.den ↔ w.low * den ≤ c * num * w.den := by
    rw [hv, le_div_iff₀ hq]
    exact_mod_cast Iff.rfl
  have hhigh : (c * (num / den) * w.den : ℚ) ≤ w.high ↔ c * num * w.den ≤ w.high * den := by
    rw [hv, div_le_iff₀ hq]
    exact_mod_cast Iff.rfl
  have hends : ((w.low : ℚ) = c * (num / den) * w.den ∨ c * (num / den) * w.den = (w.high : ℚ)) ↔
      (w.low * den = c * num * w.den ∨ c * num * w.den = w.high * den) := by
    rw [hv, eq_div_iff hq.ne', div_eq_iff hq.ne']
    exact_mod_cast Iff.rfl
  have hHolds : w.Holds (c * (num / den)) ↔ w.low * den ≤ c * num * w.den ∧
      c * num * w.den ≤ w.high * den ∧
      (w.low * den = c * num * w.den ∨ c * num * w.den = w.high * den → w.closed = true) := by
    rw [← hlow, ← hhigh, ← hends]
    exact ⟨fun h => ⟨h.low, h.high, h.ends⟩, fun h => ⟨h.1, h.2.1, h.2.2⟩⟩
  rw [hHolds, contains]
  cases w.closed with
  | true => simp
  | false =>
    simp
    omega

/-- What is found on a grid lies in the window. -/
theorem holds_of_onGrid {w : Window} {tie : Tie} {e : Int} {c : Nat}
    (h : w.onGrid tie e = some c) : w.Holds (c * 10 ^ e) := by
  rw [← pow_div_pow_eq_zpow, ← w.contains_iff c _ (pow_ten_pos _)]
  unfold onGrid at h
  dsimp only at h
  split at h
  · next h₁ h₂ =>
    split at h
    · obtain rfl := Option.some.inj h
      exact h₁
    · obtain rfl := Option.some.inj h
      exact h₂
  · next h₁ _ =>
    obtain rfl := Option.some.inj h
    exact h₁
  · next _ h₂ =>
    obtain rfl := Option.some.inj h
    exact h₂
  · cases h

/-- If one of the two neighbours of a double on a grid lies in the window, something is found. -/
theorem exists_onGrid {w : Window} (hden : 0 < w.den) (tie : Tie) {e : Int}
    (h : ∀ c : Nat, c * 10 ^ e ≤ (w.value / w.den : ℚ) → (w.value / w.den : ℚ) < (c + 1) * 10 ^ e →
      w.Holds (c * 10 ^ e) ∨ w.Holds ((c + 1) * 10 ^ e)) :
    ∃ c, w.onGrid tie e = some c := by
  have hdenq : (0 : ℚ) < w.den := by exact_mod_cast hden
  have hscale : (0 : ℚ) < (Nat.pow 10 (-e).toNat : Nat) := by exact_mod_cast pow_ten_pos _
  have hstep : 0 < Nat.pow 10 e.toNat * w.den := Nat.mul_pos (pow_ten_pos _) hden
  have hmul (c : ℚ) : c * (10 ^ e : ℚ) =
      c * (Nat.pow 10 e.toNat * w.den : Nat) / (Nat.pow 10 (-e).toNat : Nat) / w.den := by
    rw [← pow_div_pow_eq_zpow]
    push_cast
    field_simp
  -- The lower neighbour is what the division finds.
  have hfound := h (w.value * Nat.pow 10 (-e).toNat / (Nat.pow 10 e.toNat * w.den))
    (by
      rw [hmul, div_le_div_iff_of_pos_right hdenq, div_le_iff₀ hscale]
      exact_mod_cast Nat.div_mul_le_self _ _)
    (by
      rw [hmul, div_lt_div_iff_of_pos_right hdenq, lt_div_iff₀ hscale]
      have := Nat.lt_div_mul_add (a := w.value * Nat.pow 10 (-e).toNat) hstep
      rw [← Nat.succ_mul] at this
      exact_mod_cast this)
  have hcontains (c : Nat) := w.contains_iff c (Nat.pow 10 e.toNat) (pow_ten_pos (-e).toNat)
  simp only [pow_div_pow_eq_zpow] at hcontains
  rw [← Nat.cast_add_one, ← hcontains, ← hcontains] at hfound
  unfold onGrid
  dsimp only
  split
  · exact ⟨_, rfl⟩
  · exact ⟨_, rfl⟩
  · exact ⟨_, rfl⟩
  · next h₁ h₂ =>
    rw [h₁, h₂] at hfound
    simp at hfound

/-! ### The power of ten above a double -/

/-- A number is not smaller than the power of ten of its first digit. -/
theorem zpow_magnitude_le {w : Window} (hden : 0 < w.den) (hvalue : 0 < w.value) :
    (10 : ℚ) ^ (w.magnitude - 1) ≤ w.value / w.den := by
  have hdenq : (0 : ℚ) < w.den := by exact_mod_cast hden
  rw [le_div_iff₀ hdenq]
  unfold magnitude
  split
  · next hle =>
    have hpos : 0 < w.value / w.den := Nat.div_pos hle hden
    have hlen := List.length_pos_iff.2 (digits_ne_nil (w.value / w.den))
    have hmul := (Nat.mul_le_mul_right w.den (pow_length_digits_le hpos)).trans
      (Nat.div_mul_le_self w.value w.den)
    rw [show ((digits (w.value / w.den)).length : Int) - 1 =
      ((digits (w.value / w.den)).length - 1 : Nat) by omega, zpow_natCast]
    exact_mod_cast hmul
  · next hlt =>
    dsimp only
    generalize hd : (digits (w.den / w.value)).length = d
    have hlen : 0 < d := hd ▸ List.length_pos_iff.2 (digits_ne_nil _)
    split
    · next hle =>
      rw [show (2 - d : Int) - 1 = -((d - 1 : Nat) : Int) by omega, zpow_neg, zpow_natCast,
        inv_mul_le_iff₀ (by positivity), mul_comm]
      exact_mod_cast hle
    · have hlt : w.den < w.value * 10 ^ d := by
        have hdigits := lt_pow_length_digits (w.den / w.value)
        rw [hd] at hdigits
        calc w.den < w.value * (w.den / w.value + 1) := Nat.lt_mul_div_succ _ hvalue
          _ ≤ w.value * 10 ^ d := Nat.mul_le_mul_left _ hdigits
      rw [show (1 - d : Int) - 1 = -(d : Int) by omega, zpow_neg, zpow_natCast,
        inv_mul_le_iff₀ (by positivity), mul_comm]
      exact_mod_cast hlt.le

end Window

/-! ### The shortest decimal -/

theorem Window.den_pos (m : Nat) (q : Int) : 0 < (Window.ofBinary m q).den := Nat.two_pow_pos _

theorem Window.value_ofBinary (m : Nat) (q : Int) :
    ((Window.ofBinary m q).value : ℚ) / (Window.ofBinary m q).den = m * 2 ^ q := by
  have hden : (0 : ℚ) < (Window.ofBinary m q).den := by exact_mod_cast Window.den_pos m q
  have hquarter := zpow_quarter q
  rw [div_eq_iff hden.ne']
  simp only [Window.ofBinary]
  push_cast at hquarter ⊢
  linear_combination (m : ℚ) * hquarter

theorem Window.value_pos {m : Nat} (hm : 0 < m) (q : Int) : 0 < (Window.ofBinary m q).value :=
  Nat.mul_pos (Nat.mul_pos (by norm_num) hm) (Nat.two_pow_pos _)

/-- What lies strictly between the ends of a window lies in it. -/
theorem Window.holds_of_lt {m : Nat} {q : Int} {v : ℚ} (hm : 0 < m)
    (hlow : (4 * m - below m q : ℚ) < 4 * (v / 2 ^ q)) (hhigh : 4 * (v / 2 ^ q) < (4 * m + 2 : ℚ)) :
    (Window.ofBinary m q).Holds v := by
  have hbelow : below m q ≤ 2 := by unfold below; split <;> omega
  rw [Window.holds_ofBinary, Nat.cast_sub (by omega)]
  push_cast
  refine ⟨hlow.le, hhigh.le, ?_⟩
  rintro (h | h)
  · exact absurd h hlow.ne
  · exact absurd h hhigh.ne

/-- Seventeen digits are enough: of the two neighbours on that grid one rounds to the double. -/
theorem holds_seventeen {m : Nat} {q : Int} (hm : IsMantissa m q) {s : ℚ}
    (hs : 10 ^ 16 * s ≤ m * 2 ^ q) {c : Nat} (hlow : c * s ≤ m * 2 ^ q)
    (hhigh : m * 2 ^ q < (c + 1) * s) :
    (Window.ofBinary m q).Holds (c * s) ∨ (Window.ofBinary m q).Holds ((c + 1) * s) := by
  have hunit := two_zpow_pos q
  have hlt : (m + 1 : ℚ) ≤ 2 ^ 53 := by exact_mod_cast hm.lt
  -- All is counted in units of the double.
  generalize hx : s / 2 ^ q = x
  obtain rfl : s = x * 2 ^ q := by rw [← hx, div_mul_cancel₀ _ hunit.ne']
  have hs' : 10 ^ 16 * x ≤ m := le_of_mul_le_mul_right (by linarith) hunit
  have hlow' : c * x ≤ m := le_of_mul_le_mul_right (by linarith) hunit
  have hhigh' : m < (c + 1) * x := lt_of_mul_lt_mul_right (by linarith) hunit.le
  have hdiv (y : ℚ) : y * (x * 2 ^ q) / 2 ^ q = y * x := by field_simp
  by_cases hfoot : m = 2 ^ 52 ∧ -1074 < q
  · -- Above a power of two the window reaches further than the grid is wide.
    have hbelow : below m q = 1 := if_pos hfoot
    have hm52 : (m : ℚ) = 2 ^ 52 := by exact_mod_cast hfoot.1
    right
    refine Window.holds_of_lt hm.pos ?_ ?_
    · rw [hdiv, hbelow]
      push_cast
      linarith
    · rw [hdiv]
      linarith
  · -- The nearer one of the neighbours is not further away than half of the grid.
    have hbelow : below m q = 2 := if_neg hfoot
    by_cases hnear : (m : ℚ) - c * x ≤ x / 2
    · left
      refine Window.holds_of_lt hm.pos ?_ ?_
      · rw [hdiv, hbelow]
        push_cast
        linarith
      · rw [hdiv]
        linarith
    · right
      refine Window.holds_of_lt hm.pos ?_ ?_
      · rw [hdiv, hbelow]
        push_cast
        linarith
      · rw [hdiv]
        linarith

/-- The shortest decimal of a double lies in its window. -/
theorem shortest_holds (tie : Tie) {m : Nat} {q : Int} (hm : IsMantissa m q) :
    (Window.ofBinary m q).Holds ((shortest tie m q).1 * 10 ^ (shortest tie m q).2) := by
  have hden := Window.den_pos m q
  have hmagnitude := Window.zpow_magnitude_le hden (Window.value_pos hm.pos q)
  unfold shortest
  dsimp only
  generalize hw : Window.ofBinary m q = w at hden hmagnitude
  have hvalue : (w.value / w.den : ℚ) = m * 2 ^ q := hw ▸ Window.value_ofBinary m q
  split
  · next c e hfound =>
    rw [stripZeros_eq]
    obtain ⟨n, -, hn⟩ := List.exists_of_findSome?_eq_some hfound
    obtain ⟨c', hc', heq⟩ := Option.map_eq_some_iff.1 hn
    obtain ⟨rfl, rfl⟩ := Prod.mk.inj heq
    exact Window.holds_of_onGrid hc'
  · next hnone =>
    have hseventeen : ∃ c, w.onGrid tie (w.magnitude - (17 : Nat)) = some c := by
      have hstep : (10 : ℚ) ^ 16 * 10 ^ (w.magnitude - (17 : Nat)) = 10 ^ (w.magnitude - 1) := by
        rw [← zpow_natCast, ← zpow_add₀ (by norm_num)]
        congr 1
        omega
      rw [← hstep, hvalue] at hmagnitude
      refine Window.exists_onGrid hden tie fun c h₁ h₂ => ?_
      rw [hvalue] at h₁ h₂
      rw [← hw] at hmagnitude h₁ h₂ ⊢
      exact holds_seventeen hm hmagnitude h₁ h₂
    obtain ⟨c, hc⟩ := hseventeen
    have := List.findSome?_eq_none_iff.1 hnone 17 (by simp)
    rw [hc] at this
    cases this

/-! ### Reading the shortest decimal -/

/-- Every window lies in the range of doubles. -/
theorem bounds_of_holds {m : Nat} {q : Int} (hm : IsMantissa m q) {v : ℚ}
    (h : (Window.ofBinary m q).Holds v) : (2 : ℚ) ^ (-1075 : Int) ≤ v ∧ v < 2 ^ (1024 : Int) := by
  obtain ⟨hlow, hhigh, -⟩ := Window.holds_ofBinary.1 h
  have hunit := two_zpow_pos q
  have hpos := hm.pos
  have hbelow : below m q ≤ 2 := by unfold below; split <;> omega
  have hlow' : (2 : ℚ) ≤ 4 * (v / 2 ^ q) := by
    refine le_trans ?_ hlow
    exact_mod_cast (by omega : 2 ≤ 4 * m - below m q)
  have hhigh' : 4 * (v / 2 ^ q) < (2 : ℚ) ^ 55 := by
    refine lt_of_le_of_lt hhigh ?_
    have := hm.lt
    exact_mod_cast (by omega : 4 * m + 2 < 2 ^ 55)
  have hv : v = v / 2 ^ q * 2 ^ q := (div_mul_cancel₀ _ hunit.ne').symm
  have hone : (1 : ℚ) ≤ 2 := by norm_num
  constructor
  · calc (2 : ℚ) ^ (-1075 : Int) = 2 ^ (-1 : Int) * 2 ^ (-1074 : Int) := by
          rw [← zpow_add₀ two_ne_zero]; rfl
      _ ≤ v / 2 ^ q * 2 ^ q :=
          mul_le_mul (by norm_num; linarith) (zpow_le_zpow_right₀ hone hm.least)
            (two_zpow_pos _).le (by linarith)
      _ = v := hv.symm
  · calc v = v / 2 ^ q * 2 ^ q := hv
      _ < 2 ^ (53 : Int) * 2 ^ (971 : Int) :=
          mul_lt_mul (by norm_num at hhigh' ⊢; linarith) (zpow_le_zpow_right₀ hone hm.greatest)
            hunit (two_zpow_pos _).le
      _ = 2 ^ (1024 : Int) := by rw [← zpow_add₀ two_ne_zero]; rfl

/-- The digits of a decimal say between which powers of ten it lies. -/
theorem zpow_size_bounds {c : Nat} (hc : 0 < c) (e : Int) :
    (10 : ℚ) ^ ((digits c).length + e - 1) ≤ c * 10 ^ e ∧
      (c * 10 ^ e : ℚ) < 10 ^ ((digits c).length + e) := by
  have hten := ten_zpow_pos e
  have hlen := List.length_pos_iff.2 (digits_ne_nil c)
  constructor
  · rw [show ((digits c).length + e - 1 : Int) = ((digits c).length - 1 : Nat) + e by omega,
      zpow_add₀ (by norm_num), zpow_natCast]
    refine mul_le_mul_of_nonneg_right ?_ hten.le
    exact_mod_cast pow_length_digits_le hc
  · rw [zpow_add₀ (by norm_num), zpow_natCast]
    refine mul_lt_mul_of_pos_right ?_ hten
    exact_mod_cast lt_pow_length_digits c

/-- The powers of two at the ends of the range lie between these powers of ten. -/
theorem two_pow_le_ten_pow {k n : Nat} (h : 2 ^ k ≤ 10 ^ n) :
    (2 : ℚ) ^ ((1023 + k : Nat) : Int) ≤ 10 ^ ((308 + n : Nat) : Int) := by
  rw [zpow_natCast, zpow_natCast]
  calc (2 : ℚ) ^ (1023 + k) = (2 ^ 93) ^ 11 * 2 ^ k := by rw [← pow_mul, ← pow_add]
    _ ≤ (10 ^ 28) ^ 11 * 10 ^ n := by
        refine mul_le_mul (pow_le_pow_left₀ (by norm_num) (by norm_num) 11) ?_ (by positivity)
          (by positivity)
        exact_mod_cast h
    _ = 10 ^ (308 + n) := by rw [← pow_mul, ← pow_add]

theorem ten_zpow_le_least : (10 : ℚ) ^ (-331 : Int) ≤ 2 ^ (-1075 : Int) := by
  rw [zpow_neg, zpow_neg]
  exact inv_anti₀ (two_zpow_pos _) (two_pow_le_ten_pow (k := 52) (n := 23) (by norm_num))

theorem two_zpow_le_greatest : (2 : ℚ) ^ (1024 : Int) ≤ 10 ^ (310 : Int) :=
  two_pow_le_ten_pow (k := 1) (n := 2) (by norm_num)

/-- A decimal in the window of a double is read as that double. -/
theorem nearestDecimal_of_holds {m : Nat} {q : Int} (hm : IsMantissa m q) (negative : Bool)
    {c : Nat} {e : Int} (h : (Window.ofBinary m q).Holds (c * 10 ^ e)) :
    nearestDecimal negative c e = Float.ofBits (UInt64.ofNat ((q + 1074).toNat * 2 ^ 52 + m +
      if negative then Nat.pow 2 63 else 0)) := by
  obtain ⟨hlow, hhigh⟩ := bounds_of_holds hm h
  have hc : 0 < c := by
    rw [pos_iff_ne_zero]
    rintro rfl
    rw [Nat.cast_zero, zero_mul] at hlow
    exact absurd hlow (not_le.2 (two_zpow_pos _))
  obtain ⟨hsize, hsize'⟩ := zpow_size_bounds hc e
  have hten : (1 : ℚ) < 10 := by norm_num
  have hleast : -331 < (digits c).length + e :=
    (zpow_lt_zpow_iff_right₀ hten).1 (ten_zpow_le_least.trans_lt (hlow.trans_lt hsize'))
  have hgreatest : (digits c).length + e - 1 < 310 :=
    (zpow_lt_zpow_iff_right₀ hten).1 ((hsize.trans_lt hhigh).trans_le two_zpow_le_greatest)
  unfold nearestDecimal
  dsimp only
  rw [if_neg (by simp; omega), if_neg (by omega)]
  have hbits {num den : Nat} (hden : 0 < den) (hv : (num / den : ℚ) = c * 10 ^ e) :
      nearestBits num den = (q + 1074).toNat * 2 ^ 52 + m :=
    nearestBits_eq_of_holds hm hden (by rwa [hv])
  have hpow := pow_div_pow_eq_zpow e
  split
  · next he =>
    rw [nearest, hbits one_pos]
    rw [← hpow, Int.toNat_of_nonpos (by omega : -e ≤ 0)]
    push_cast
    ring
  · next he =>
    rw [nearest, hbits (pow_ten_pos _)]
    rw [← hpow, Int.toNat_of_nonpos (by omega : e ≤ 0)]
    push_cast
    ring

/-! ### Reading written doubles -/

/-- A finite double is written as a numeral of its shortest digits. -/
theorem Layout.exists_numeral_text {layout : Layout} (h : layout.plusSign = false) {x : Float}
    (hx : isFinite x = true) :
    ∃ n : Numeral, n.WellFormed ∧ (layout.text x).toList = signText (isNegative x) ++ n.text ∧
      n.Stands (shortestDigits layout.tie (exponentField x) (fractionField x)).1
        (shortestDigits layout.tie (exponentField x) (fractionField x)).2 := by
  have hexp := isFinite_iff.1 hx
  obtain ⟨n, hn, htext, hstands⟩ := Layout.exists_numeral h hexp (fractionField x)
  refine ⟨n, hn, ?_, hstands⟩
  unfold exponentField fractionField at *
  unfold Layout.text signText isNegative
  dsimp only [Nat.pow_eq]
  rw [if_neg (fun hnan => hexp hnan.1), htext, String.toList_ofList]
  rcases lt_or_ge x.toBits.toNat (2 ^ 63) with hsign | hsign
  · rw [if_pos hsign, decide_eq_false (not_le.2 hsign)]
    rfl
  · rw [if_neg (not_lt.2 hsign), decide_eq_true hsign]
    rfl

theorem isMantissa_mantissa {exponent fraction : Nat} (he : exponent < 2047)
    (hf : fraction < 2 ^ 52) (hpos : (mantissa exponent fraction).1 ≠ 0) :
    IsMantissa (mantissa exponent fraction).1 (mantissa exponent fraction).2 := by
  unfold mantissa at *
  split at hpos
  · next h0 =>
    rw [if_pos h0]
    constructor <;> dsimp only at * <;> omega
  · next h0 =>
    rw [if_neg h0]
    dsimp only [Nat.pow_eq] at *
    constructor <;> omega

/-- The bits of a double without its sign. -/
theorem toNat_mantissa (exponent fraction : Nat) :
    ((mantissa exponent fraction).2 + 1074).toNat * 2 ^ 52 + (mantissa exponent fraction).1 =
      exponent * 2 ^ 52 + fraction := by
  unfold mantissa
  split
  · next h0 =>
    rw [h0]
    rfl
  · next h0 =>
    rw [show ((exponent - 1075 : Int) + 1074).toNat = exponent - 1 by omega]
    dsimp only [Nat.pow_eq]
    omega

theorem mantissa_eq_zero {exponent fraction : Nat} (h : (mantissa exponent fraction).1 = 0) :
    exponent * 2 ^ 52 + fraction = 0 := by
  unfold mantissa at h
  split at h
  · next h0 =>
    rw [h0]
    dsimp only at h
    omega
  · dsimp only [Nat.pow_eq] at h
    omega

theorem nearestDecimal_zero (negative : Bool) (e : Int) :
    nearestDecimal negative 0 e =
      Float.ofBits (UInt64.ofNat (0 + if negative then Nat.pow 2 63 else 0)) := rfl

/-- **A finite double is read back from its text.** -/
theorem readDouble?_text {layout : Layout} (h : layout.plusSign = false) {x : Float}
    (hx : isFinite x = true) : readDouble? (layout.text x).toList = some x := by
  obtain ⟨n, hn, htext, k, hcoefficient, hscale⟩ := Layout.exists_numeral_text h hx
  have hexp : exponentField x < 2047 :=
    lt_of_le_of_ne (Nat.le_of_lt_succ (Nat.mod_lt _ (by norm_num))) (isFinite_iff.1 hx)
  have hself : Float.ofBits (UInt64.ofNat (exponentField x * 2 ^ 52 + fractionField x +
      if isNegative x then Nat.pow 2 63 else 0)) = x := by
    rw [← toNat_toBits, UInt64.ofNat_toNat, ofBits_toBits]
  rw [htext, readDouble?_numeral hn]
  refine congrArg some (Eq.trans ?_ hself)
  unfold shortestDigits at hcoefficient hscale
  split at hcoefficient
  · next hzero =>
    rw [hcoefficient, zero_mul, nearestDecimal_zero, mantissa_eq_zero hzero]
  · next hpos =>
    rw [if_neg hpos] at hscale
    rw [← toNat_mantissa]
    refine nearestDecimal_of_holds (isMantissa_mantissa hexp (fractionField_lt x) hpos) _ ?_
    rw [hcoefficient, hscale, Nat.cast_mul, Nat.cast_pow, mul_assoc, Nat.cast_ofNat,
      ← zpow_natCast, ← zpow_add₀ (by norm_num), add_sub_cancel]
    exact shortest_holds _ (isMantissa_mantissa hexp (fractionField_lt x) hpos)

end WideColumn.Decimal
