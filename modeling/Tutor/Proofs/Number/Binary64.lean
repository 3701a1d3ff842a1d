import Mathlib.Algebra.Order.Field.Power
import Mathlib.Algebra.Order.Field.Rat
import Mathlib.Data.Rat.Lemmas
import Mathlib.Tactic.FieldSimp
import Mathlib.Tactic.Linarith
import Mathlib.Tactic.Ring
import Tutor.Number.Binary64

/-!
Rounding rationals to doubles keeps their order. A larger magnitude has no smaller bit pattern: with the
same last place the mantissas are rounded alike, and with a later one the carry of the smaller mantissa is
made up for. A pattern that is no NaN is the pattern of its double, so the total order of doubles puts the
doubles of two rationals in the order of the rationals, or they are the same double.
-/

set_option autoImplicit false
set_option relaxedAutoImplicit false

namespace Tutor.Number

open Float.Model (Format)
open Float.Model.UnpackedFloat

/-! ### Bit patterns -/

section Patterns

variable {b : BitVec Format.binary64.numBits}

private theorem toBitVec_ofBitVec (s : BitVec 1) : (Sign.ofBitVec s).toBitVec = s := by
  rcases (by omega : s.toNat = 0 ∨ s.toNat = 1) with h | h
  · obtain rfl : s = 0#1 := BitVec.eq_of_toNat_eq h
    rfl
  · obtain rfl : s = 1#1 := BitVec.eq_of_toNat_eq h
    rfl

private theorem packComponents_unpack (b : BitVec Format.binary64.numBits) :
    packComponents Format.binary64 (Sign.ofBitVec (unpackSign b)) (unpackExponent b) (unpackMantissa b) =
      b := by
  have whole : b.extractLsb' 63 1 ++ b.extractLsb' 52 11 ++ b.extractLsb' 0 52 = b := by
    ext i hi
    grind
  rw [packComponents, toBitVec_ofBitVec]
  exact whole

private theorem toNat_unpackMantissa (b : BitVec Format.binary64.numBits) :
    (unpackMantissa b).toNat = b.toNat % 2 ^ 52 := by
  simp [unpackMantissa]

private theorem toNat_unpackExponent (b : BitVec Format.binary64.numBits) :
    (unpackExponent b).toNat = b.toNat / 2 ^ 52 % 2 ^ 11 := by
  simp [unpackExponent, Nat.shiftRight_eq_div_pow]

private theorem pack_finite (s : Sign) (m : Nat) (e : Int) (h : 0 < m) :
    pack Format.binary64 (.finite s m e h) =
      if 2 ^ 11 ≤ (e + (1023 : Nat) + (52 : Nat)).toNat + 1 then packedInfinity Format.binary64 s
      else if m.log2 + 1 = 53 then
        packComponents Format.binary64 s (BitVec.ofNat 11 (e + (1023 : Nat) + (52 : Nat)).toNat)
          (BitVec.ofNat 52 m)
      else packComponents Format.binary64 s 0#11 (BitVec.ofNat 52 m) := rfl

private theorem pack_unpack (h : unpackExponent b = -1#_ → unpackMantissa b = 0#_) :
    pack Format.binary64 (Float.Model.UnpackedFloat.unpack Format.binary64 b) = b := by
  have whole := packComponents_unpack b
  have mantissa : (unpackMantissa b).toNat < 2 ^ 52 := (unpackMantissa b).isLt
  have exponent : (unpackExponent b).toNat < 2 ^ 11 := (unpackExponent b).isLt
  by_cases hexp : unpackExponent b = -1#_
  · have infinite : unpack Format.binary64 b = .infinity (Sign.ofBitVec (unpackSign b)) :=
      (if_pos hexp).trans (if_pos (h hexp))
    rw [hexp, h hexp] at whole
    rw [infinite]
    exact whole
  by_cases hexp0 : unpackExponent b = 0#_
  · by_cases hman0 : unpackMantissa b = 0#_
    · have zero : unpack Format.binary64 b = .zero (Sign.ofBitVec (unpackSign b)) :=
        (if_neg hexp).trans ((if_pos hexp0).trans (dif_pos hman0))
      rw [hexp0, hman0] at whole
      rw [zero]
      exact whole
    · -- a subnormal number: the mantissa is too short for the leading bit
      have positive : (unpackMantissa b).toNat ≠ 0 := fun h0 => hman0 (BitVec.eq_of_toNat_eq h0)
      have short : (unpackMantissa b).toNat.log2 < 52 := (Nat.log2_lt positive).mpr mantissa
      have subnormal : unpack Format.binary64 b = .finite (Sign.ofBitVec (unpackSign b))
          (unpackMantissa b).toNat ((unpackExponent b).toNat - (((1023 : Nat) : Int) + (52 : Nat)) + 1)
          (Nat.pos_of_ne_zero positive) :=
        (if_neg hexp).trans ((if_pos hexp0).trans (dif_neg hman0))
      have field : (unpackExponent b).toNat = 0 := by
        rw [hexp0]
        rfl
      rw [subnormal, pack_finite, if_neg (by omega), if_neg (by omega), BitVec.ofNat_toNat,
        BitVec.setWidth_eq]
      rw [hexp0] at whole
      exact whole
  · -- a normal number: the leading bit is not stored
    have finite : (unpackExponent b).toNat ≠ 2 ^ 11 - 1 := fun h1 => hexp (BitVec.eq_of_toNat_eq h1)
    have leading : (1#1 ++ unpackMantissa b).toNat = 2 ^ 52 + (unpackMantissa b).toNat := by
      rw [BitVec.toNat_append, ← Nat.shiftLeft_add_eq_or_of_lt (unpackMantissa b).isLt]
      rfl
    have length : (2 ^ 52 + (unpackMantissa b).toNat).log2 = 52 := by
      rw [Nat.log2_eq_iff (by omega)]
      omega
    have normal : unpack Format.binary64 b = .finite (Sign.ofBitVec (unpackSign b))
        (1#1 ++ unpackMantissa b).toNat ((unpackExponent b).toNat - (((1023 : Nat) : Int) + (52 : Nat)))
        (by omega) :=
      (if_neg hexp).trans (if_neg hexp0)
    have field : ((unpackExponent b).toNat - (((1023 : Nat) : Int) + (52 : Nat)) + (1023 : Nat) +
        (52 : Nat)).toNat = (unpackExponent b).toNat := by
      omega
    have cleared : BitVec.ofNat 52 (2 ^ 52 + (unpackMantissa b).toNat) = unpackMantissa b := by
      apply BitVec.eq_of_toNat_eq
      rw [BitVec.toNat_ofNat]
      omega
    rw [normal, pack_finite, field, leading, cleared, if_neg (by omega), if_pos (by rw [length]),
      BitVec.ofNat_toNat, BitVec.setWidth_eq]
    exact whole

private theorem toBits_ofBits {n : Nat} (h : n % signUnit ≤ infinityBits) (bound : n < 2 * signUnit) :
    (Float.ofBits (UInt64.ofNat n)).toBits.toNat = n := by
  have pattern : (UInt64.ofNat n).toBitVec.toNat = n := by
    rw [UInt64.toNat_toBitVec, UInt64.toNat_ofNat']
    exact Nat.mod_eq_of_lt bound
  have number : @unpackExponent Format.binary64 (UInt64.ofNat n).toBitVec = -1#_ →
      @unpackMantissa Format.binary64 (UInt64.ofNat n).toBitVec = 0#_ := by
    intro hexp
    have field := toNat_unpackExponent (UInt64.ofNat n).toBitVec
    apply BitVec.eq_of_toNat_eq
    rw [toNat_unpackMantissa, pattern]
    rw [hexp, pattern] at field
    change 2 ^ 11 - 1 = _ at field
    change _ = 0
    simp only [signUnit, infinityBits] at h bound
    omega
  change (pack Format.binary64 (Float.Model.UnpackedFloat.unpack Format.binary64
    (UInt64.ofNat n).toBitVec)).toNat = n
  rw [pack_unpack number, pattern]

end Patterns

/-! ### Rounding to an integer -/

section Rounding

variable {n n' d d' : Nat}

private theorem roundHalfEven_le (hd : 0 < d) : (roundHalfEven n d : ℚ) ≤ n / d + 1 / 2 := by
  have hd' : (0 : ℚ) < d := Nat.cast_pos.mpr hd
  have bound : ((2 * roundHalfEven n d * d : ℕ) : ℚ) ≤ ((2 * n + d : ℕ) : ℚ) :=
    Nat.cast_le.mpr (roundHalfEven_bounds n d hd).2
  push_cast at bound
  rw [← sub_le_iff_le_add, le_div_iff₀ hd']
  linarith

private theorem le_roundHalfEven (hd : 0 < d) : (n : ℚ) / d ≤ roundHalfEven n d + 1 / 2 := by
  have hd' : (0 : ℚ) < d := Nat.cast_pos.mpr hd
  have bound : ((2 * n : ℕ) : ℚ) ≤ (((2 * roundHalfEven n d + 1) * d : ℕ) : ℚ) :=
    Nat.cast_le.mpr (roundHalfEven_bounds n d hd).1
  push_cast at bound
  rw [div_le_iff₀ hd']
  linarith

private theorem roundHalfEven_of_tie {k : Nat} (hd : 0 < d) (tie : (n : ℚ) / d = k + 1 / 2) :
    roundHalfEven n d % 2 = 0 := by
  have hd' : (d : ℚ) ≠ 0 := (Nat.cast_pos.mpr hd).ne'
  have double : 2 * n = (2 * k + 1) * d := by
    rw [div_eq_iff hd'] at tie
    have : (2 * n : ℚ) = (2 * k + 1) * d := by linarith
    exact_mod_cast this
  have split_n := Nat.div_add_mod n d
  have quotient : n / d = k := by
    apply Nat.div_eq_of_lt_le
    · grind
    · grind
  rw [quotient] at split_n
  have rest : 2 * (n % d) = d := by grind
  simp only [roundHalfEven, quotient, rest, Nat.lt_irrefl, if_false]
  split <;> omega

private theorem roundHalfEven_mono (hd : 0 < d) (hd' : 0 < d') (h : (n : ℚ) / d ≤ n' / d') :
    roundHalfEven n d ≤ roundHalfEven n' d' := by
  by_contra! less
  have above := roundHalfEven_le (n := n) hd
  have below := le_roundHalfEven (n := n') hd'
  have next : (roundHalfEven n' d' : ℚ) + 1 ≤ roundHalfEven n d := by exact_mod_cast less
  -- both fractions are half-way between the two integers, which are neighbours
  have tie : (n : ℚ) / d = roundHalfEven n' d' + 1 / 2 := by linarith
  have tie' : (n' : ℚ) / d' = roundHalfEven n' d' + 1 / 2 := by linarith
  have neighbour : (roundHalfEven n d : ℚ) ≤ roundHalfEven n' d' + 1 := by linarith
  have neighbour : roundHalfEven n d ≤ roundHalfEven n' d' + 1 := by exact_mod_cast neighbour
  have even := roundHalfEven_of_tie hd tie
  have even' := roundHalfEven_of_tie hd' tie'
  omega

private theorem roundHalfEven_le_of_le {k : Nat} (hd : 0 < d) (h : (n : ℚ) / d ≤ k) :
    roundHalfEven n d ≤ k := by
  have above := roundHalfEven_le (n := n) hd
  have : (roundHalfEven n d : ℚ) < k + 1 := by linarith
  have : roundHalfEven n d < k + 1 := by exact_mod_cast this
  omega

private theorem le_roundHalfEven_of_le {k : Nat} (hd : 0 < d) (h : (k : ℚ) ≤ n / d) :
    k ≤ roundHalfEven n d := by
  have below := le_roundHalfEven (n := n) hd
  have : (k : ℚ) < roundHalfEven n d + 1 := by linarith
  have : k < roundHalfEven n d + 1 := by exact_mod_cast this
  omega

/-! ### The bit pattern of a magnitude -/

private theorem shiftLeft_pos (hd : 0 < d) (k : Nat) : 0 < d <<< k := by
  rw [Nat.shiftLeft_eq]
  exact Nat.mul_pos hd (Nat.two_pow_pos k)

private theorem shifted_fraction (n : Nat) (hd : 0 < d) (u : Int) :
    ((n <<< (-u).toNat : Nat) : ℚ) / (d <<< u.toNat : Nat) = n / d / 2 ^ u := by
  have hd' : (d : ℚ) ≠ 0 := (Nat.cast_pos.mpr hd).ne'
  have power : (2 : ℚ) ^ u = 2 ^ u.toNat / 2 ^ (-u).toNat := by
    rw [← zpow_natCast, ← zpow_natCast, ← zpow_sub₀ two_ne_zero]
    congr 1
    omega
  rw [Nat.shiftLeft_eq, Nat.shiftLeft_eq, power]
  push_cast
  field_simp

private theorem log2_bounds {n : Nat} (hn : 0 < n) :
    (2 : ℚ) ^ (n.log2 : Int) ≤ n ∧ (n : ℚ) < 2 ^ ((n.log2 : Int) + 1) := by
  have low := Nat.log2_self_le hn.ne'
  have high := Nat.lt_log2_self (n := n)
  constructor
  · exact_mod_cast low
  · exact_mod_cast high

private theorem binaryExponent_bounds (hn : 0 < n) (hd : 0 < d) :
    (2 : ℚ) ^ binaryExponent n d ≤ n / d ∧ (n : ℚ) / d < 2 ^ (binaryExponent n d + 1) := by
  obtain ⟨lowN, highN⟩ := log2_bounds hn
  obtain ⟨lowD, highD⟩ := log2_bounds hd
  have hd' : (0 : ℚ) < d := Nat.cast_pos.mpr hd
  have two (k : Int) : (0 : ℚ) < 2 ^ k := zpow_pos two_pos k
  have fits (k : Int) : d <<< k.toNat ≤ n <<< (-k).toNat ↔ (2 : ℚ) ^ k ≤ n / d := by
    have positive : (0 : ℚ) < (d <<< k.toNat : Nat) := Nat.cast_pos.mpr (shiftLeft_pos hd _)
    rw [← one_le_div₀ (two k), ← shifted_fraction n hd k, one_le_div₀ positive, Nat.cast_le]
  simp only [binaryExponent, fits]
  split_ifs with h
  · refine ⟨h, ?_⟩
    calc (n : ℚ) / d < 2 ^ ((n.log2 : Int) + 1) / d := (div_lt_div_iff_of_pos_right hd').mpr highN
      _ ≤ 2 ^ ((n.log2 : Int) + 1) / 2 ^ (d.log2 : Int) := by gcongr
      _ = 2 ^ ((n.log2 : Int) - d.log2 + 1) := by
        rw [← zpow_sub₀ two_ne_zero]
        congr 1
        omega
  · rw [sub_add_cancel]
    refine ⟨?_, not_le.mp h⟩
    calc (2 : ℚ) ^ ((n.log2 : Int) - d.log2 - 1)
        = 2 ^ (n.log2 : Int) / 2 ^ ((d.log2 : Int) + 1) := by
          rw [← zpow_sub₀ two_ne_zero]
          congr 1
          omega
      _ ≤ n / 2 ^ ((d.log2 : Int) + 1) := by gcongr
      _ ≤ n / d := by gcongr

private theorem binaryExponent_mono (hn : 0 < n) (hd : 0 < d) (hn' : 0 < n') (hd' : 0 < d')
    (h : (n : ℚ) / d ≤ n' / d') : binaryExponent n d ≤ binaryExponent n' d' := by
  have low := (binaryExponent_bounds hn hd).1
  have high := (binaryExponent_bounds hn' hd').2
  have := (zpow_lt_zpow_iff_right₀ one_lt_two).mp (low.trans_lt (h.trans_lt high))
  omega

def lastPlace (n d : Nat) : Int := max (binaryExponent n d - 52) (-1074)

/-- The mantissa in units of the last place, which is `2 ^ 53` if it is rounded up to a power of two. -/
def mantissa (n d : Nat) : Nat :=
  roundHalfEven (n <<< (-lastPlace n d).toNat) (d <<< (lastPlace n d).toNat)

private theorem magnitudeBits_eq (n d : Nat) : magnitudeBits n d =
    min ((lastPlace n d + 1074).toNat * exponentUnit + mantissa n d) infinityBits := rfl

private theorem mantissa_le (hn : 0 < n) (hd : 0 < d) : mantissa n d ≤ 2 ^ 53 := by
  apply roundHalfEven_le_of_le (shiftLeft_pos hd _)
  rw [shifted_fraction n hd, div_le_iff₀ (zpow_pos two_pos _)]
  calc (n : ℚ) / d ≤ 2 ^ (binaryExponent n d + 1) := (binaryExponent_bounds hn hd).2.le
    _ ≤ 2 ^ (53 + lastPlace n d) := zpow_le_zpow_right₀ one_le_two (by rw [lastPlace]; omega)
    _ = _ := by
      rw [zpow_add₀ two_ne_zero]
      norm_num

private theorem le_mantissa (hn : 0 < n) (hd : 0 < d) (normal : -1074 < lastPlace n d) :
    2 ^ 52 ≤ mantissa n d := by
  apply le_roundHalfEven_of_le (shiftLeft_pos hd _)
  rw [shifted_fraction n hd, le_div_iff₀ (zpow_pos two_pos _)]
  calc _ = (2 : ℚ) ^ (52 + lastPlace n d) := by
        rw [zpow_add₀ two_ne_zero]
        norm_num
    _ = 2 ^ binaryExponent n d := by
        congr 1
        rw [lastPlace] at normal ⊢
        omega
    _ ≤ n / d := (binaryExponent_bounds hn hd).1

private theorem magnitudeBits_mono (hn : 0 < n) (hd : 0 < d) (hn' : 0 < n') (hd' : 0 < d')
    (h : (n : ℚ) / d ≤ n' / d') : magnitudeBits n d ≤ magnitudeBits n' d' := by
  have exponents := binaryExponent_mono hn hd hn' hd' h
  have places : lastPlace n d ≤ lastPlace n' d' := by
    rw [lastPlace, lastPlace]
    omega
  have low : -1074 ≤ lastPlace n d := le_max_right _ _
  rw [magnitudeBits_eq, magnitudeBits_eq]
  apply min_le_min_right
  rcases places.eq_or_lt with same | less
  · rw [same]
    apply Nat.add_le_add_left
    rw [mantissa, mantissa, same]
    apply roundHalfEven_mono (shiftLeft_pos hd _) (shiftLeft_pos hd' _)
    rw [shifted_fraction n hd, shifted_fraction n' hd']
    exact div_le_div_of_nonneg_right h (zpow_pos two_pos _).le
  · have above := mantissa_le hn hd
    have below := le_mantissa hn' hd' (by omega)
    simp only [exponentUnit]
    omega

end Rounding

/-! ### The order of the doubles -/

section Order

variable {q q' : Rat}

def magnitudeOf (q : Rat) : Nat := if q.num = 0 then 0 else magnitudeBits q.num.natAbs q.den

private theorem magnitudeOf_le (q : Rat) : magnitudeOf q ≤ infinityBits := by
  rw [magnitudeOf]
  split_ifs
  · exact Nat.zero_le _
  · exact min_le_right _ _

private theorem nearestFloat_eq (q : Rat) : nearestFloat q =
    Float.ofBits (UInt64.ofNat (if q < 0 then magnitudeOf q + signUnit else magnitudeOf q)) := by
  rw [nearestFloat, magnitudeOf]
  split_ifs with h0 hneg
  · exact absurd (Rat.num_eq_zero.mp h0) hneg.ne
  · decide +kernel
  · rfl
  · rfl

private theorem totalOrderKey_ofBits {n : Nat} (h : n ≤ infinityBits) :
    totalOrderKey (Float.ofBits (UInt64.ofNat n)) = n := by
  have below : infinityBits < signUnit := by decide
  have pattern := toBits_ofBits (n := n) (by rwa [Nat.mod_eq_of_lt (h.trans_lt below)]) (by omega)
  simp only [totalOrderKey, pattern]
  exact if_pos h

private theorem totalOrderKey_ofBits_add_signUnit {n : Nat} (h : n ≤ infinityBits) :
    totalOrderKey (Float.ofBits (UInt64.ofNat (n + signUnit))) = -1 - (n : Int) := by
  have below : infinityBits < signUnit := by decide
  have pattern := toBits_ofBits (n := n + signUnit)
    (by rwa [Nat.add_mod_right, Nat.mod_eq_of_lt (h.trans_lt below)]) (by omega)
  simp only [totalOrderKey, pattern]
  rw [if_neg (by omega), if_neg (by omega)]
  omega

private theorem totalOrderKey_nearestFloat (q : Rat) : totalOrderKey (nearestFloat q) =
    if q < 0 then -1 - (magnitudeOf q : Int) else magnitudeOf q := by
  rw [nearestFloat_eq]
  split_ifs
  · exact totalOrderKey_ofBits_add_signUnit (magnitudeOf_le q)
  · exact totalOrderKey_ofBits (magnitudeOf_le q)

private theorem natAbs_div_den (q : Rat) : (q.num.natAbs : ℚ) / q.den = |q| := by
  rw [Rat.abs_def, Rat.divInt_eq_div, Int.cast_natCast, Int.cast_natCast]

private theorem magnitudeOf_mono (h : |q| ≤ |q'|) : magnitudeOf q ≤ magnitudeOf q' := by
  rw [magnitudeOf, magnitudeOf]
  split_ifs with h0 h0' h0'
  · exact le_rfl
  · exact Nat.zero_le _
  · rw [Rat.num_eq_zero.mp h0', abs_zero, abs_nonpos_iff] at h
    exact absurd (Rat.num_eq_zero.mpr h) h0
  · apply magnitudeBits_mono (Int.natAbs_pos.mpr h0) q.den_pos (Int.natAbs_pos.mpr h0') q'.den_pos
    rwa [natAbs_div_den, natAbs_div_den]

/-- The doubles nearest to two rationals are in the order of the rationals. -/
theorem totalOrderKey_nearestFloat_mono (h : q ≤ q') :
    totalOrderKey (nearestFloat q) ≤ totalOrderKey (nearestFloat q') := by
  rw [totalOrderKey_nearestFloat, totalOrderKey_nearestFloat]
  split_ifs with hneg hneg' hneg'
  · have magnitudes : |q'| ≤ |q| := by
      rw [abs_of_neg hneg, abs_of_neg hneg']
      exact neg_le_neg h
    have := magnitudeOf_mono magnitudes
    omega
  · omega
  · exact absurd (h.trans_lt hneg') hneg
  · have magnitudes : |q| ≤ |q'| := by
      rw [abs_of_nonneg (not_lt.mp hneg), abs_of_nonneg (not_lt.mp hneg')]
      exact h
    exact_mod_cast magnitudeOf_mono magnitudes

theorem totalOrderKey_nearestFloat_neg_iff : totalOrderKey (nearestFloat q) < 0 ↔ q < 0 := by
  rw [totalOrderKey_nearestFloat]
  split_ifs with hneg
  · exact iff_of_true (by omega) hneg
  · exact iff_of_false (by omega) hneg

theorem nearestFloat_eq_of_totalOrderKey_eq
    (h : totalOrderKey (nearestFloat q) = totalOrderKey (nearestFloat q')) :
    nearestFloat q = nearestFloat q' := by
  rw [totalOrderKey_nearestFloat, totalOrderKey_nearestFloat] at h
  rw [nearestFloat_eq, nearestFloat_eq]
  split_ifs at h ⊢ with hneg hneg' hneg'
  · rw [show magnitudeOf q = magnitudeOf q' by omega]
  · omega
  · omega
  · rw [show magnitudeOf q = magnitudeOf q' by omega]

end Order

end Tutor.Number
