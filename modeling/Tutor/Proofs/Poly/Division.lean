import Mathlib.Algebra.Polynomial.FieldDivision
import Tutor.Poly.Division
import Tutor.Proofs.Poly.Ring

/-!
Division with remainder and greatest common divisors are those of the ring of polynomials: the rest is
the dividend less a multiple of the divisor and has a lower degree, an exact division answers exactly
if there is a quotient, and the last rest of the Euclidean loop is divided by every common divisor.
-/

set_option autoImplicit false
set_option relaxedAutoImplicit false

namespace Tutor.Poly

private theorem highest_add_tail (p : Poly) :
    Polynomial.monomial (p.bound - 1) p.leading + p.tail.toPolynomial = p.toPolynomial := by
  obtain ⟨ts, canonical, words⟩ := p
  cases ts with
  | nil => exact (add_eq_right.mpr (map_zero _))
  | cons t ts => exact (sumOfTerms_cons t.1 t.2 ts).symm

theorem toPolynomial_reduce {p d : Poly} (hd : d.bound ≠ 0) (h : d.bound ≤ p.bound) :
    (reduce p d).toPolynomial = p.toPolynomial -
      Polynomial.monomial (p.bound - d.bound) (p.leading / d.leading) * d.toPolynomial := by
  have hlead : d.leading ≠ 0 := by
    rw [leading_eq_leadingCoeff, Polynomial.leadingCoeff_ne_zero]
    exact mt toPolynomial_eq_zero_iff.mp hd
  have top : Polynomial.monomial (p.bound - d.bound) (p.leading / d.leading) *
      Polynomial.monomial (d.bound - 1) d.leading = Polynomial.monomial (p.bound - 1) p.leading := by
    rw [Polynomial.monomial_mul_monomial, div_mul_cancel₀ _ hlead,
      show p.bound - d.bound + (d.bound - 1) = p.bound - 1 by omega]
  -- the rest of the divisor, shifted as far, stays below the dividend
  have word : d.tail.toPolynomial.natDegree + (p.bound - d.bound) < UInt64.size := by
    have lower := bound_tail_lt d hd
    have size := p.bound_le_size
    rw [natDegree_toPolynomial]
    omega
  rw [reduce, toPolynomial_sub, toPolynomial_shift word, ← highest_add_tail p, ← highest_add_tail d]
  linear_combination top

theorem toPolynomial_quotientMonomial {p d : Poly} (hd : d.bound ≠ 0) (h : d.bound ≤ p.bound) (c : Rat) :
    (monomial (p.bound - d.bound) c).toPolynomial = Polynomial.monomial (p.bound - d.bound) c := by
  have size := p.bound_le_size
  exact toPolynomial_monomial (by omega) c

theorem divMod_eq (p d : Poly) :
    p.toPolynomial =
      (divMod p d).1.toPolynomial * d.toPolynomial + (divMod p d).2.toPolynomial := by
  induction hn : p.bound using Nat.strongRecOn generalizing p with
  | ind n ih =>
    rw [divMod]
    split
    · rw [toPolynomial_zero, zero_mul, zero_add]
    · rename_i h
      have hd : d.bound ≠ 0 := by omega
      have hle : d.bound ≤ p.bound := by omega
      have rest := ih _ (hn ▸ bound_reduce_lt hd hle) (reduce p d) rfl
      rw [toPolynomial_reduce hd hle] at rest
      simp only [toPolynomial_add, toPolynomial_quotientMonomial hd hle]
      linear_combination rest

theorem eq_of_division {p d q r : Poly} (hr : r.bound < d.bound)
    (h : p.toPolynomial = q.toPolynomial * d.toPolynomial + r.toPolynomial) :
    divMod p d = (q, r) := by
  have hd : d.toPolynomial ≠ 0 := mt toPolynomial_eq_zero_iff.mp (by omega)
  have hr' := bound_divMod_snd_lt p (d := d) (by omega)
  have difference : ((divMod p d).1.toPolynomial - q.toPolynomial) * d.toPolynomial =
      r.toPolynomial - (divMod p d).2.toPolynomial := by
    linear_combination h - divMod_eq p d
  have small : (r.toPolynomial - (divMod p d).2.toPolynomial).degree < d.toPolynomial.degree :=
    (Polynomial.degree_sub_le _ _).trans_lt
      (max_lt (degree_lt_of_bound_lt hr) (degree_lt_of_bound_lt hr'))
  have none : r.toPolynomial - (divMod p d).2.toPolynomial = 0 :=
    Polynomial.eq_zero_of_dvd_of_degree_lt (Dvd.intro_left _ difference) small
  rw [none, mul_eq_zero, or_iff_left hd] at difference
  exact Prod.ext (toPolynomial_injective (sub_eq_zero.mp difference))
    (toPolynomial_injective (sub_eq_zero.mp none).symm)

theorem divExact?_eq_some_iff {p d q : Poly} (hd : d.bound ≠ 0) :
    p.divExact? d = some q ↔ p.toPolynomial = q.toPolynomial * d.toPolynomial := by
  simp only [divExact?, Option.ite_none_right_eq_some, Option.some.injEq]
  constructor
  · rintro ⟨rest, rfl⟩
    rw [divMod_eq p d, isZero_iff.mp rest, add_zero]
  · intro h
    have rest : p.toPolynomial = q.toPolynomial * d.toPolynomial + (0 : Poly).toPolynomial := by
      rw [h, toPolynomial_zero, add_zero]
    rw [eq_of_division (bound_zero ▸ Nat.pos_of_ne_zero hd) rest]
    exact ⟨rfl, rfl⟩

theorem divExact?_ne_zero {p d q : Poly} (hd : d.bound ≠ 0) (hp : p.toPolynomial ≠ 0)
    (h : p.divExact? d = some q) : q.toPolynomial ≠ 0 := by
  intro h0
  rw [divExact?_eq_some_iff hd, h0, zero_mul] at h
  exact hp h

theorem exists_divExact? {p d : Poly} (hd : d.bound ≠ 0) (h : d.toPolynomial ∣ p.toPolynomial) :
    ∃ q, p.divExact? d = some q := by
  have division := divMod_eq p d
  have divides : d.toPolynomial ∣ (divMod p d).2.toPolynomial := by
    rw [division] at h
    exact (dvd_add_right (Dvd.intro_left _ rfl)).mp h
  have none : (divMod p d).2.toPolynomial = 0 :=
    Polynomial.eq_zero_of_dvd_of_degree_lt divides (degree_lt_of_bound_lt (bound_divMod_snd_lt p hd))
  rw [none, add_zero] at division
  exact ⟨(divMod p d).1, (divExact?_eq_some_iff hd).mpr division⟩

/-! ### Greatest common divisors -/

theorem associated_monic (p : Poly) : Associated p.monic.toPolynomial p.toPolynomial := by
  rw [toPolynomial_monic]
  by_cases hp : p.toPolynomial = 0
  · rw [hp, zero_mul]
  · have unit : p.toPolynomial.leadingCoeff⁻¹ ≠ 0 :=
      inv_ne_zero (Polynomial.leadingCoeff_ne_zero.mpr hp)
    exact associated_mul_unit_left _ _ (Polynomial.isUnit_C.mpr (isUnit_iff_ne_zero.mpr unit))

theorem monic_toPolynomial_monic {p : Poly} (hp : p.toPolynomial ≠ 0) :
    p.monic.toPolynomial.Monic := by
  rw [toPolynomial_monic]
  exact Polynomial.monic_mul_leadingCoeff_inv hp

/-- The result of the Euclidean loop divides both arguments, and whatever divides both divides it. -/
theorem dvd_gcd_iff (a b : Poly) (f : Polynomial ℚ) :
    f ∣ (gcd a b).toPolynomial ↔ f ∣ a.toPolynomial ∧ f ∣ b.toPolynomial := by
  induction a, b using gcd.induct with
  | case1 a b h =>
    rw [gcd, dif_pos h, (associated_monic a).dvd_iff_dvd_right, toPolynomial_eq_zero_iff.mpr h]
    exact (and_iff_left (dvd_zero f)).symm
  | case2 a b h _ ih =>
    rw [gcd, dif_neg h, ih, and_comm]
    refine and_congr_left fun hb => ?_
    rw [divMod_eq a b, dvd_add_right (hb.mul_left _)]

theorem gcd_dvd_left (a b : Poly) : (gcd a b).toPolynomial ∣ a.toPolynomial :=
  ((dvd_gcd_iff a b _).mp dvd_rfl).1

theorem gcd_dvd_right (a b : Poly) : (gcd a b).toPolynomial ∣ b.toPolynomial :=
  ((dvd_gcd_iff a b _).mp dvd_rfl).2

theorem monic_gcd {a b : Poly} (h : a.toPolynomial ≠ 0 ∨ b.toPolynomial ≠ 0) :
    (gcd a b).toPolynomial.Monic := by
  induction a, b using gcd.induct with
  | case1 a b hb =>
    rw [gcd, dif_pos hb]
    exact monic_toPolynomial_monic (h.resolve_right (not_not.mpr (toPolynomial_eq_zero_iff.mpr hb)))
  | case2 a b hb _ ih =>
    rw [gcd, dif_neg hb]
    exact ih (.inl (mt toPolynomial_eq_zero_iff.mp hb))

/-! ### Linear divisors -/

theorem bound_linear_ne_zero (r : Rat) : (linear r).bound ≠ 0 := by
  rw [bound_linear]
  exact two_ne_zero

theorem linear_dvd_iff {p : Poly} {r : Rat} :
    (linear r).toPolynomial ∣ p.toPolynomial ↔ p.eval r = 0 := by
  rw [toPolynomial_linear, Polynomial.dvd_iff_isRoot, isRoot_toPolynomial]

end Tutor.Poly
