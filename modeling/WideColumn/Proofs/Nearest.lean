import Mathlib.Algebra.Order.Field.Rat
import Mathlib.Algebra.Order.Field.Power
import Mathlib.Tactic.FieldSimp
import Mathlib.Tactic.Linarith
import Mathlib.Tactic.NormNum
import Mathlib.Tactic.Positivity
import Mathlib.Tactic.Ring
import WideColumn.Decimal.Nearest
import WideColumn.Decimal.Shortest

/-!
# Rounding to doubles

The reals that round to a double `m · 2 ^ q` are those of its window:

* `Window.Holds` : a window as an interval of rational numbers;
* `nearestBits_eq_of_holds` : a quotient in the window of a double has the bits of that double.
-/

namespace WideColumn.Decimal

/-! ### Quotients -/

theorem scaleDown_eq (num : Nat) {den : Nat} (hden : 0 < den) (q : Int) :
    0 < (scaleDown num den q).2 ∧
      ((scaleDown num den q).1 : ℚ) / (scaleDown num den q).2 = num / den / 2 ^ q := by
  unfold scaleDown
  split
  · next hq =>
    obtain ⟨k, rfl⟩ := Int.eq_ofNat_of_zero_le hq
    simp only [Int.toNat_natCast, Nat.pow_eq, zpow_natCast]
    refine ⟨by positivity, ?_⟩
    push_cast
    rw [div_div]
  · next hq =>
    obtain ⟨k, rfl⟩ : ∃ k : Nat, q = -(k : Int) := ⟨(-q).toNat, by omega⟩
    simp only [neg_neg, Int.toNat_natCast, Nat.pow_eq, zpow_neg, zpow_natCast]
    refine ⟨hden, ?_⟩
    push_cast
    field_simp

theorem two_zpow_pos (q : Int) : (0 : ℚ) < 2 ^ q := zpow_pos (by norm_num) q

theorem zpow_log2_le {n : Nat} (hn : 0 < n) : (2 : ℚ) ^ (n.log2 : Int) ≤ n := by
  rw [zpow_natCast]
  exact_mod_cast Nat.log2_self_le hn.ne'

theorem lt_zpow_log2 (n : Nat) : (n : ℚ) < 2 ^ (n.log2 + 1 : Int) := by
  exact_mod_cast Nat.lt_log2_self (n := n)

/-- The quotient lies between two neighbouring powers of two. -/
theorem floorLog2_bounds {num den : Nat} (hnum : 0 < num) (hden : 0 < den) :
    (2 : ℚ) ^ floorLog2 num den ≤ num / den ∧
      (num / den : ℚ) < 2 ^ (floorLog2 num den + 1) := by
  have hdenq : (0 : ℚ) < den := by exact_mod_cast hden
  generalize he : (num.log2 - den.log2 : Int) = e
  obtain ⟨hpos, hscale⟩ := scaleDown_eq num hden e
  have hposq : (0 : ℚ) < (scaleDown num den e).2 := by exact_mod_cast hpos
  -- The logarithms of both parts leave two powers of two to choose from.
  have hlow : (2 : ℚ) ^ (e - 1) ≤ num / den := by
    rw [le_div_iff₀ hdenq, show e - 1 = num.log2 - (den.log2 + 1) by omega, zpow_sub₀ two_ne_zero,
      div_mul_eq_mul_div, div_le_iff₀ (two_zpow_pos _)]
    exact mul_le_mul (zpow_log2_le hnum) (lt_zpow_log2 den).le hdenq.le (by positivity)
  have hhigh : (num / den : ℚ) < 2 ^ (e + 1) := by
    rw [div_lt_iff₀ hdenq, show e + 1 = (num.log2 + 1) - den.log2 by omega, zpow_sub₀ two_ne_zero,
      div_mul_eq_mul_div, lt_div_iff₀ (two_zpow_pos _)]
    exact mul_lt_mul (lt_zpow_log2 num) (zpow_log2_le hden) (two_zpow_pos _) (by positivity)
  unfold floorLog2
  simp only [he]
  split
  · next hlt =>
    have hone : (num / den / 2 ^ e : ℚ) < 1 := by
      rw [← hscale, div_lt_one hposq]
      exact_mod_cast hlt
    rw [div_lt_one (two_zpow_pos e)] at hone
    exact ⟨hlow, by rwa [sub_add_cancel]⟩
  · next hlt =>
    have hone : (1 : ℚ) ≤ num / den / 2 ^ e := by
      rw [← hscale, one_le_div hposq]
      exact_mod_cast not_lt.1 hlt
    rw [one_le_div (two_zpow_pos e)] at hone
    exact ⟨hone, hhigh⟩

theorem le_floorLog2 {num den : Nat} (hnum : 0 < num) (hden : 0 < den) {q k : Int}
    (h : (2 : ℚ) ^ k ≤ num / den / 2 ^ q) : q + k ≤ floorLog2 num den := by
  rw [le_div_iff₀ (two_zpow_pos q), ← zpow_add₀ two_ne_zero] at h
  have hlt := h.trans_lt (floorLog2_bounds hnum hden).2
  have := (zpow_lt_zpow_iff_right₀ (by norm_num : (1 : ℚ) < 2)).1 hlt
  omega

theorem floorLog2_lt {num den : Nat} (hnum : 0 < num) (hden : 0 < den) {q k : Int}
    (h : (num / den / 2 ^ q : ℚ) < 2 ^ k) : floorLog2 num den < q + k := by
  rw [div_lt_iff₀ (two_zpow_pos q), ← zpow_add₀ two_ne_zero, add_comm] at h
  have hlt := (floorLog2_bounds hnum hden).1.trans_lt h
  exact (zpow_lt_zpow_iff_right₀ (by norm_num : (1 : ℚ) < 2)).1 hlt

/-- The integer half way to whose neighbours a quotient does not get is the one it is rounded to,
also half way if it is even. -/
theorem divRoundEven_eq {n d m : Nat} (hd : 0 < d) (hlow : 2 * m * d ≤ 2 * n + d)
    (hhigh : 2 * n ≤ (2 * m + 1) * d)
    (heven : 2 * m * d = 2 * n + d ∨ 2 * n = (2 * m + 1) * d → m % 2 = 0) :
    divRoundEven n d = m := by
  have hn := Nat.div_add_mod n d
  have hr := Nat.mod_lt n hd
  unfold divRoundEven
  dsimp only
  generalize n / d = k at hn ⊢
  generalize n % d = r at hn hr ⊢
  subst hn
  have hle : k ≤ m := by
    by_contra hlt
    have := Nat.mul_le_mul_left d (not_le.1 hlt)
    nlinarith
  have hge : m ≤ k + 1 := by
    by_contra hlt
    have := Nat.mul_le_mul_left d (not_le.1 hlt)
    nlinarith
  obtain rfl | rfl : m = k ∨ m = k + 1 := by omega
  · have : 2 * m * d = 2 * (d * m) := by ring
    have : (2 * m + 1) * d = 2 * (d * m) + d := by ring
    split
    · rfl
    split <;> omega
  · have : 2 * (k + 1) * d = 2 * (d * k) + 2 * d := by ring
    have : (2 * (k + 1) + 1) * d = 2 * (d * k) + 3 * d := by ring
    split
    · omega
    split <;> omega

theorem divRoundEven_eq_of_div {n d m : Nat} (hd : 0 < d) (hlow : (m - 1 / 2 : ℚ) ≤ n / d)
    (hhigh : (n / d : ℚ) ≤ m + 1 / 2)
    (heven : (m - 1 / 2 : ℚ) = n / d ∨ (n / d : ℚ) = m + 1 / 2 → m % 2 = 0) :
    divRoundEven n d = m := by
  have hdq : (0 : ℚ) < d := by exact_mod_cast hd
  rw [le_div_iff₀ hdq] at hlow
  rw [div_le_iff₀ hdq] at hhigh
  rw [eq_div_iff hdq.ne', div_eq_iff hdq.ne'] at heven
  refine divRoundEven_eq hd ?_ ?_ fun h => heven ?_
  · have : (2 * m * d : ℚ) ≤ 2 * n + d := by linarith
    exact_mod_cast this
  · have : (2 * n : ℚ) ≤ (2 * m + 1) * d := by linarith
    exact_mod_cast this
  · refine h.imp (fun h => ?_) fun h => ?_
    · have : (2 * m * d : ℚ) = 2 * n + d := by exact_mod_cast h
      linarith
    · have : (2 * n : ℚ) = (2 * m + 1) * d := by exact_mod_cast h
      linarith

/-! ### Bits of a quotient -/

theorem nearestBits_eq {num den m : Nat} {q : Int} (hnum : 0 < num) (hden : 0 < den)
    (hq : max (floorLog2 num den - 52) (-1074) = q) (hlow : (m - 1 / 2 : ℚ) ≤ num / den / 2 ^ q)
    (hhigh : (num / den / 2 ^ q : ℚ) ≤ m + 1 / 2)
    (heven : (m - 1 / 2 : ℚ) = num / den / 2 ^ q ∨ (num / den / 2 ^ q : ℚ) = m + 1 / 2 → m % 2 = 0)
    (hfit : (q + 1074).toNat * 2 ^ 52 + m ≤ infinityBits) :
    nearestBits num den = (q + 1074).toNat * 2 ^ 52 + m := by
  obtain ⟨hpos, hscale⟩ := scaleDown_eq num hden q
  have hround : divRoundEven (scaleDown num den q).1 (scaleDown num den q).2 = m := by
    rw [← hscale] at hlow hhigh heven
    exact divRoundEven_eq_of_div hpos hlow hhigh heven
  unfold nearestBits
  rw [if_neg hnum.ne']
  simp only [hq, hround]
  exact min_eq_left hfit

/-- A mantissa and the power of two that it counts, as a positive double has them. -/
structure IsMantissa (m : Nat) (q : Int) : Prop where
  /-- The double is not zero. -/
  pos : 0 < m
  /-- The mantissa has at most 53 digits. -/
  lt : m < 2 ^ 53
  /-- The exponent is not below its range. -/
  least : -1074 ≤ q
  /-- The exponent is not above its range. -/
  greatest : q ≤ 971
  /-- Only at the foot of the exponent range the mantissa has fewer digits. -/
  full : q = -1074 ∨ 2 ^ 52 ≤ m

/-- A number lies in a window. -/
structure Window.Holds (w : Window) (v : ℚ) : Prop where
  /-- It is not below the window. -/
  low : w.low ≤ v * w.den
  /-- It is not above the window. -/
  high : v * w.den ≤ w.high
  /-- Only in a closed window it is one of the ends. -/
  ends : w.low = v * w.den ∨ v * w.den = w.high → w.closed = true

/-- The part of a unit below a mantissa that rounds to it, in quarters. -/
def below (m : Nat) (q : Int) : Nat := if m = 2 ^ 52 ∧ -1074 < q then 1 else 2

theorem zpow_quarter (q : Int) :
    ((Nat.pow 2 (q - 2).toNat : Nat) : ℚ) * 4 = Nat.pow 2 (2 - q).toNat * 2 ^ q := by
  have hsplit : (2 : ℚ) ^ q = 2 ^ (q - 2) * 4 := by
    rw [zpow_sub₀ two_ne_zero]
    norm_num
  rw [hsplit, ← mul_assoc]
  congr 1
  simp only [Nat.pow_eq, Nat.cast_pow, Nat.cast_ofNat]
  rcases le_total 2 q with h | h
  · rw [Int.toNat_of_nonpos (by omega : 2 - q ≤ 0), pow_zero, one_mul, ← zpow_natCast,
      Int.toNat_of_nonneg (by omega)]
  · rw [Int.toNat_of_nonpos (by omega : q - 2 ≤ 0), pow_zero, ← zpow_natCast,
      Int.toNat_of_nonneg (by omega), ← zpow_add₀ two_ne_zero]
    norm_num

/-- The window of a double, in quarters of its unit. -/
theorem Window.holds_ofBinary {m : Nat} {q : Int} {v : ℚ} :
    (Window.ofBinary m q).Holds v ↔ ((4 * m - below m q : Nat) : ℚ) ≤ 4 * (v / 2 ^ q) ∧
      4 * (v / 2 ^ q) ≤ ((4 * m + 2 : Nat) : ℚ) ∧
      (((4 * m - below m q : Nat) : ℚ) = 4 * (v / 2 ^ q) ∨
        4 * (v / 2 ^ q) = ((4 * m + 2 : Nat) : ℚ) → m % 2 = 0) := by
  have hup : (0 : ℚ) < (Nat.pow 2 (q - 2).toNat : Nat) := by
    exact_mod_cast Nat.two_pow_pos _
  have hv : v * (Window.ofBinary m q).den = 4 * (v / 2 ^ q) * (Nat.pow 2 (q - 2).toNat : Nat) := by
    have := two_zpow_pos q
    have hden := zpow_quarter q
    simp only [Window.ofBinary]
    field_simp
    rw [mul_assoc, ← hden]
    ring
  have hlow : ((Window.ofBinary m q).low : ℚ) =
      (4 * m - below m q : Nat) * (Nat.pow 2 (q - 2).toNat : Nat) := Nat.cast_mul _ _
  have hhigh : ((Window.ofBinary m q).high : ℚ) =
      (4 * m + 2 : Nat) * (Nat.pow 2 (q - 2).toNat : Nat) := Nat.cast_mul _ _
  have hclosed : (Window.ofBinary m q).closed = true ↔ m % 2 = 0 := decide_eq_true_iff
  constructor
  · rintro ⟨h₁, h₂, h₃⟩
    rw [hlow, hv, mul_le_mul_iff_left₀ hup] at h₁
    rw [hhigh, hv, mul_le_mul_iff_left₀ hup] at h₂
    rw [hlow, hhigh, hv, mul_left_inj' hup.ne', mul_left_inj' hup.ne', hclosed] at h₃
    exact ⟨h₁, h₂, h₃⟩
  · rintro ⟨h₁, h₂, h₃⟩
    refine ⟨?_, ?_, ?_⟩
    · rwa [hlow, hv, mul_le_mul_iff_left₀ hup]
    · rwa [hhigh, hv, mul_le_mul_iff_left₀ hup]
    · rwa [hlow, hhigh, hv, mul_left_inj' hup.ne', mul_left_inj' hup.ne', hclosed]

/-- Below a power of two the digits are counted in halves of its unit, and what is less than a
quarter of the unit away is rounded up to that power. -/
theorem nearestBits_below_power {num den : Nat} {q : Int} (hnum : 0 < num) (hden : 0 < den)
    (hleast : -1074 < q) (hgreatest : q ≤ 971)
    (hlow : (2 ^ 52 - 1 / 4 : ℚ) ≤ num / den / 2 ^ q) (hhigh : (num / den / 2 ^ q : ℚ) < 2 ^ 52) :
    nearestBits num den = (q + 1074).toNat * 2 ^ 52 + 2 ^ 52 := by
  have hlog : floorLog2 num den = q + 51 := by
    have hlt : floorLog2 num den < q + 52 := floorLog2_lt hnum hden (by exact_mod_cast hhigh)
    have hle : q + 51 ≤ floorLog2 num den := by
      refine le_floorLog2 hnum hden (le_trans ?_ hlow)
      norm_num
    omega
  have hhalf : (num / den / 2 ^ (q - 1) : ℚ) = 2 * (num / den / 2 ^ q) := by
    rw [zpow_sub_one₀ two_ne_zero]
    field_simp
  have hbits := nearestBits_eq (m := 2 ^ 53) (q := q - 1) hnum hden (by omega)
    (by rw [hhalf]; push_cast; linarith) (by rw [hhalf]; push_cast; linarith) (fun _ => rfl)
    (by unfold infinityBits; omega)
  have hcarry : (q + 1074).toNat = (q - 1 + 1074).toNat + 1 := by omega
  rw [hbits, hcarry]
  ring

/-- What lies in the window of a double has the bits of that double. -/
theorem nearestBits_eq_of_holds {m : Nat} {q : Int} (hm : IsMantissa m q) {num den : Nat}
    (hden : 0 < den) (h : (Window.ofBinary m q).Holds (num / den)) :
    nearestBits num den = (q + 1074).toNat * 2 ^ 52 + m := by
  obtain ⟨hlow, hhigh, heven⟩ := Window.holds_ofBinary.1 h
  have hpos := hm.pos
  have hlt := hm.lt
  have hleast := hm.least
  have hgreatest := hm.greatest
  have hbelow : below m q ≤ 2 := by unfold below; split <;> omega
  rw [Nat.cast_sub (by omega)] at hlow heven
  push_cast at hlow hhigh heven
  have hbelowq : (below m q : ℚ) ≤ 2 := by exact_mod_cast hbelow
  have hposq : (1 : ℚ) ≤ m := by exact_mod_cast hpos
  have hltq : (m + 1 : ℚ) ≤ 2 ^ 53 := by exact_mod_cast hlt
  generalize ht : (num / den / 2 ^ q : ℚ) = t at hlow hhigh heven
  have hnum : 0 < num := by
    rw [pos_iff_ne_zero]
    rintro rfl
    rw [Nat.cast_zero, zero_div, zero_div] at ht
    linarith
  have heven' : (m - 1 / 2 : ℚ) = t ∨ t = m + 1 / 2 → m % 2 = 0 := by
    rintro (heq | heq)
    · exact heven (.inl (by linarith))
    · exact heven (.inr (by linarith))
  have hround (hq : max (floorLog2 num den - 52) (-1074) = q) (hlow : (m - 1 / 2 : ℚ) ≤ t) :
      nearestBits num den = (q + 1074).toNat * 2 ^ 52 + m :=
    nearestBits_eq hnum hden hq (by rwa [ht]) (by rw [ht]; linarith) (by rwa [ht])
      (by unfold infinityBits; omega)
  by_cases hfull : (2 : ℚ) ^ 52 ≤ t
  · -- The number has as many digits before the unit as the double.
    have hlog : floorLog2 num den = q + 52 := by
      have hle : q + 52 ≤ floorLog2 num den :=
        le_floorLog2 hnum hden (by rw [ht]; exact_mod_cast hfull)
      have hlt : floorLog2 num den < q + 53 := by
        refine floorLog2_lt hnum hden ?_
        rw [ht]
        norm_num at hltq ⊢
        linarith
      omega
    exact hround (by omega) (by linarith)
  · rw [not_le] at hfull
    by_cases hfoot : q = -1074
    · have hlog : floorLog2 num den < q + 52 :=
        floorLog2_lt hnum hden (by rw [ht]; exact_mod_cast hfull)
      exact hround (by omega) (by linarith)
    · -- The double is a power of two, and the number lies below it.
      obtain rfl : m = 2 ^ 52 := by
        refine le_antisymm ?_ (hm.full.resolve_left hfoot)
        have : (m : ℚ) < 2 ^ 52 + 1 := by linarith
        exact Nat.le_of_lt_succ (by exact_mod_cast this)
      have hquarter : below (2 ^ 52) q = 1 := if_pos ⟨rfl, by omega⟩
      rw [hquarter] at hlow
      push_cast at hlow
      exact nearestBits_below_power hnum hden (by omega) hgreatest (by rw [ht]; linarith)
        (by rwa [ht])

end WideColumn.Decimal
