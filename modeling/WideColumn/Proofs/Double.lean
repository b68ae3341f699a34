import Mathlib
import WideColumn.Decimal.Layout
import WideColumn.Decimal.Nearest

/-!
# Doubles and their bits

A double is its bits, but that all patterns of no number are one (`toBits_ofBits`, `ofBits_toBits`).
What a number is read as is finite or infinite (`isFinite_nearest`), and a finite double is equal to
itself (`beq_self_of_isFinite`).
-/

namespace WideColumn.Decimal

open Float.Model hiding pack unpack
open Float.Model.UnpackedFloat

/-! ### Packed and unpacked -/

/-- The bits of a double. -/
abbrev Bits := BitVec Format.binary64.numBits

theorem mantissaBits_eq : Format.binary64.mantissaBits = 53 := rfl

theorem exponentBias_eq : Format.binary64.exponentBias = 1023 := rfl

theorem toBitVec_ofBitVec (b : BitVec 1) : (Sign.ofBitVec b).toBitVec = b := by
  revert b
  decide

/-- Sign, exponent and fraction make up the bits. -/
theorem packComponents_eq {b : Bits} {e : BitVec 11} {m : BitVec 52}
    (he : unpackExponent b = e) (hm : unpackMantissa b = m) :
    packComponents Format.binary64 (Sign.ofBitVec (unpackSign b)) e m = b := by
  subst he hm
  simp only [packComponents, toBitVec_ofBitVec, unpackSign, unpackExponent, unpackMantissa,
    BitVec.extractLsb]
  ext i hi
  grind

theorem toNat_implicit (m : BitVec 52) : (1#1 ++ m).toNat = 2 ^ 52 + m.toNat := by
  have := Nat.shiftLeft_add_eq_or_of_lt m.isLt 1
  rw [BitVec.toNat_append, BitVec.toNat_ofNat, ← this]
  rfl

theorem log2_eq {n k : Nat} (h : 2 ^ k ≤ n) (h' : n < 2 ^ (k + 1)) : n.log2 = k := by
  have hn : n ≠ 0 := by
    have := Nat.two_pow_pos k
    omega
  have := (Nat.le_log2 hn).2 h
  have := (Nat.log2_lt hn).2 h'
  omega

theorem pack_subnormal (s : Sign) {m : BitVec 52} {e : Int} (hm : 0 < m.toNat) (he : e = -1074) :
    pack Format.binary64 (.finite s m.toNat e hm) = packComponents _ s 0#11 m := by
  have hlog : ¬ m.toNat.log2 + 1 = Format.binary64.mantissaBits := by
    have := (Nat.log2_lt (k := 52) (by omega)).2 m.isLt
    rw [mantissaBits_eq]
    omega
  rw [pack, he]
  dsimp only
  rw [if_neg (by decide), if_neg hlog, BitVec.ofNat_toNat, BitVec.setWidth_eq]

theorem pack_normal (s : Sign) {e : BitVec 11} (m : BitVec 52) {k : Int} (h0 : 0 < e.toNat)
    (h1 : e.toNat < 2047) (hpos : 0 < (1#1 ++ m).toNat) (hk : k = e.toNat - 1075) :
    pack Format.binary64 (.finite s (1#1 ++ m).toNat k hpos) = packComponents _ s e m := by
  have hm := m.isLt
  have hlog : (1#1 ++ m).toNat.log2 + 1 = Format.binary64.mantissaBits := by
    rw [toNat_implicit, log2_eq (k := 52) (by omega) (by omega), mantissaBits_eq]
  have hbiased : (k + (1023 : Nat) + (52 : Nat)).toNat = e.toNat := by omega
  have hfraction : BitVec.ofNat 52 (1#1 ++ m).toNat = m := by
    apply BitVec.eq_of_toNat_eq
    rw [BitVec.toNat_ofNat, toNat_implicit]
    omega
  rw [pack]
  dsimp only
  rw [exponentBias_eq, hbiased, if_neg (by omega), if_pos hlog, hfraction, BitVec.ofNat_toNat,
    BitVec.setWidth_eq]

theorem toNat_pos_of_ne_zero {w : Nat} {b : BitVec w} (h : b ≠ 0#w) : 0 < b.toNat :=
  Nat.pos_of_ne_zero fun h0 => h (BitVec.eq_of_toNat_eq (by simpa using h0))

/-- What is unpacked is packed to the same bits, if no number has the one pattern for it. -/
theorem pack_unpack {b : Bits} (hb : Format.binary64.Valid b) :
    pack Format.binary64 (unpack Format.binary64 b) = b := by
  unfold unpack
  dsimp only
  split
  · next he =>
    split
    · next hm => exact packComponents_eq he hm
    · next hm => exact (hb.eq_packedNaN he hm).symm
  · next hinf =>
    split
    · next he =>
      split
      · next hm => exact packComponents_eq he hm
      · next hm =>
        rw [pack_subnormal _ (toNat_pos_of_ne_zero hm) (by rw [he]; rfl)]
        exact packComponents_eq he rfl
    · next he =>
      have hlt : (unpackExponent b).toNat < 2047 := by
        have : (unpackExponent b).toNat < 2048 := (unpackExponent b).isLt
        have : (unpackExponent b).toNat ≠ 2047 := fun h => hinf (BitVec.eq_of_toNat_eq h)
        omega
      rw [pack_normal _ _ (toNat_pos_of_ne_zero he) hlt _ (by rw [exponentBias_eq]; omega)]
      exact packComponents_eq rfl rfl

theorem toBits_ofBits {a : UInt64} (h : Format.binary64.Valid a.toBitVec) :
    (Float.ofBits a).toBits = a := by
  have := pack_unpack h
  exact UInt64.toBitVec_inj.1 this

theorem toBits_injective {x y : Float} (h : x.toBits = y.toBits) : x = y := by
  obtain ⟨⟨a, ha⟩⟩ := x
  obtain ⟨⟨b, hb⟩⟩ := y
  obtain rfl : a = b := h
  rfl

theorem ofBits_toBits (x : Float) : Float.ofBits x.toBits = x :=
  toBits_injective (toBits_ofBits x.toModel.valid)

/-! ### The parts of a double -/

/-- The exponent field of a double. -/
def exponentField (x : Float) : Nat := x.toBits.toNat / 2 ^ 52 % 2048

/-- The fraction field of a double. -/
def fractionField (x : Float) : Nat := x.toBits.toNat % 2 ^ 52

/-- Whether the sign bit of a double is set. -/
def isNegative (x : Float) : Bool := decide (2 ^ 63 ≤ x.toBits.toNat)

theorem fractionField_lt (x : Float) : fractionField x < 2 ^ 52 := Nat.mod_lt _ (by decide)

theorem toNat_toBits (x : Float) :
    x.toBits.toNat =
      exponentField x * 2 ^ 52 + fractionField x + if isNegative x then Nat.pow 2 63 else 0 := by
  have := x.toBits.toNat_lt
  unfold exponentField fractionField isNegative
  by_cases h : 2 ^ 63 ≤ x.toBits.toNat
  · rw [decide_eq_true h]
    dsimp
    omega
  · rw [decide_eq_false h]
    dsimp
    omega

theorem isFinite_iff {x : Float} : isFinite x = true ↔ exponentField x ≠ 2047 := bne_iff_ne

/-! ### Finite doubles -/

theorem toNat_unpackExponent (a : UInt64) :
    (@unpackExponent Format.binary64 a.toBitVec).toNat = a.toNat / 2 ^ 52 % 2048 := by
  change (a.toNat >>> 52) % 2 ^ 11 = _
  rw [Nat.shiftRight_eq_div_pow]

theorem unpackExponent_ne {a : UInt64} (h : a.toNat / 2 ^ 52 % 2048 ≠ 2047) :
    @unpackExponent Format.binary64 a.toBitVec ≠ -1#11 := by
  intro he
  rw [← toNat_unpackExponent, he] at h
  exact h rfl

theorem valid_of_exponent_ne {a : UInt64} (h : a.toNat / 2 ^ 52 % 2048 ≠ 2047) :
    Format.binary64.Valid a.toBitVec := ⟨fun he => absurd he (unpackExponent_ne h)⟩

theorem isFinite_ofBits {a : UInt64} (h : a.toNat / 2 ^ 52 % 2048 ≠ 2047) :
    isFinite (Float.ofBits a) = true := by
  rw [isFinite, toBits_ofBits (valid_of_exponent_ne h)]
  exact bne_iff_ne.2 h

theorem beq_self_of_ne {u : Float.Model.UnpackedFloat} (h : u ≠ .notANumber) : u.beq u = true := by
  unfold Float.Model.UnpackedFloat.beq
  cases u with
  | notANumber => exact absurd rfl h
  | infinity s => cases s <;> rfl
  | zero s => rfl
  | finite s m e hm => cases s <;> simp [Float.Model.UnpackedFloat.compare]

theorem unpack_ne_notANumber {b : Bits} (h : unpackExponent b ≠ -1#11) :
    unpack Format.binary64 b ≠ .notANumber := by
  unfold unpack
  dsimp only
  rw [if_neg h]
  split
  · split <;> simp
  · simp

theorem beq_self_of_isFinite {x : Float} (h : isFinite x = true) : (x == x) = true :=
  beq_self_of_ne (unpack_ne_notANumber (unpackExponent_ne (bne_iff_ne.1 h)))

theorem isInf_infinity (negative : Bool) :
    (Float.ofBits (UInt64.ofNat (infinityBits + if negative then Nat.pow 2 63 else 0))).isInf =
      true := by
  cases negative <;> decide

theorem nearestBits_le (num den : Nat) : nearestBits num den ≤ infinityBits := by
  unfold nearestBits
  split
  · exact Nat.zero_le _
  · exact Nat.min_le_right _ _

/-- What a number is read as is finite if it is not infinite. -/
theorem isFinite_nearest {negative : Bool} {num den : Nat}
    (h : (nearest negative num den).isInf = false) :
    isFinite (nearest negative num den) = true := by
  have hle := nearestBits_le num den
  unfold nearest at h ⊢
  by_cases hinf : nearestBits num den = infinityBits
  · rw [hinf, isInf_infinity] at h
    cases h
  · refine isFinite_ofBits ?_
    unfold infinityBits at *
    rw [UInt64.toNat_ofNat']
    split <;> simp <;> omega

end WideColumn.Decimal
