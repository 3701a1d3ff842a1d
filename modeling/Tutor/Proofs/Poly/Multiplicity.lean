import Mathlib.Algebra.Polynomial.RingDivision
import Tutor.Proofs.Poly.Division
import Tutor.Proofs.Poly.Overflow

/-!
The multiplicity of a root. The loop divides by `x - r` as long as the division is exact; each division
lowers the degree, so a polynomial that is not zero is divided a number of times below the number of its
coefficients. What is left has no root at `r`, and so the count is the multiplicity of `r` in the ring of
polynomials: the powers of `x - r` up to it are those that divide, and for a product it is the sum.
-/

set_option autoImplicit false
set_option relaxedAutoImplicit false

namespace Tutor.Poly

variable {p q c : Poly} {r : Rat} {m : Nat}

/-- A run of the loop: exact divisions by `x - r`, one for each time counted, and then one that is not
exact. -/
inductive LinearDivisions (r : Rat) : Poly → Nat → Poly → Prop where
  | done {p : Poly} (stuck : p.divExact? (linear r) = none) : LinearDivisions r p 0 p
  | divide {p q c : Poly} {m : Nat} (division : p.divExact? (linear r) = some q)
      (rest : LinearDivisions r q m c) : LinearDivisions r p (m + 1) c

private theorem multiplicity_of_divExact?_eq_none (h : p.divExact? (linear r) = none) :
    p.multiplicity r = 0 := by
  rw [multiplicity]
  split
  · rfl
  · split
    · rfl
    · rename_i found
      rw [h] at found
      cases found

private theorem multiplicity_of_divExact?_eq_some (hp : p.bound ≠ 0) (h : p.divExact? (linear r) = some q) :
    p.multiplicity r = q.multiplicity r + 1 := by
  rw [multiplicity, dif_neg hp]
  split
  · rename_i none
    rw [h] at none
    cases none
  · rename_i q' found
    obtain rfl := Option.some.inj (found.symm.trans h)
    rfl

/-! ### One division -/

private theorem bound_ne_zero_iff : p.bound ≠ 0 ↔ p ≠ 0 := by
  rw [ne_eq, ne_eq, eq_zero_iff, toPolynomial_eq_zero_iff]

private theorem divExact?_linear_lowers (hp : p ≠ 0) (h : p.divExact? (linear r) = some q) :
    q.bound < p.bound :=
  bound_divExact?_lt (bound_ne_zero_iff.mpr hp) (one_lt_bound_linear r) h

private theorem divExact?_linear_ne_zero (hp : p ≠ 0) (h : p.divExact? (linear r) = some q) : q ≠ 0 :=
  mt eq_zero_iff.mp (divExact?_ne_zero (bound_linear_ne_zero r) (mt eq_zero_iff.mpr hp) h)

private theorem eval_ne_zero_of_divExact?_eq_none (h : p.divExact? (linear r) = none) : p.eval r ≠ 0 := by
  intro h0
  obtain ⟨q, found⟩ := exists_divExact? (bound_linear_ne_zero r) (linear_dvd_iff.mpr h0)
  rw [h] at found
  cases found

/-! ### The run -/

private theorem exists_linearDivisions (hp : p ≠ 0) (r : Rat) :
    ∃ c, LinearDivisions r p (p.multiplicity r) c := by
  induction hn : p.bound using Nat.strongRecOn generalizing p with
  | ind n ih =>
    cases hq : p.divExact? (linear r) with
    | none =>
      rw [multiplicity_of_divExact?_eq_none hq]
      exact ⟨p, .done hq⟩
    | some q =>
      have lower : q.bound < n := hn ▸ divExact?_linear_lowers hp hq
      obtain ⟨c, rest⟩ := ih q.bound lower (divExact?_linear_ne_zero hp hq) rfl
      rw [multiplicity_of_divExact?_eq_some (bound_ne_zero_iff.mpr hp) hq]
      exact ⟨c, .divide hq rest⟩

namespace LinearDivisions

private theorem lt_bound (h : LinearDivisions r p m c) (hp : p ≠ 0) : m < p.bound := by
  induction h with
  | done => exact Nat.pos_of_ne_zero (bound_ne_zero_iff.mpr hp)
  | divide division rest ih =>
    have lower := divExact?_linear_lowers hp division
    have := ih (divExact?_linear_ne_zero hp division)
    omega

theorem product (h : LinearDivisions r p m c) :
    p.toPolynomial = c.toPolynomial * (Polynomial.X - Polynomial.C r) ^ m := by
  induction h with
  | done => rw [pow_zero, mul_one]
  | divide division rest ih =>
    rw [divExact?_eq_some_iff (bound_linear_ne_zero r)] at division
    rw [division, ih, toPolynomial_linear, pow_succ, mul_assoc]

private theorem eval_ne_zero (h : LinearDivisions r p m c) : c.eval r ≠ 0 := by
  induction h with
  | done stuck => exact eval_ne_zero_of_divExact?_eq_none stuck
  | divide division rest ih => exact ih

end LinearDivisions

/-- A polynomial is the power of `x - r` given by the multiplicity, times a factor that has no root
at `r`. -/
theorem exists_multiplicity_factor (hp : p ≠ 0) (r : Rat) : ∃ c : Poly,
    p.toPolynomial = c.toPolynomial * (Polynomial.X - Polynomial.C r) ^ p.multiplicity r ∧
      c.eval r ≠ 0 := by
  obtain ⟨c, run⟩ := exists_linearDivisions hp r
  exact ⟨c, run.product, run.eval_ne_zero⟩

/-! ### The count -/

private theorem multiplicity_lt_bound (hp : p ≠ 0) (r : Rat) : p.multiplicity r < p.bound := by
  obtain ⟨c, run⟩ := exists_linearDivisions hp r
  exact run.lt_bound hp

private theorem multiplicity_eq_rootMultiplicity (hp : p ≠ 0) (r : Rat) :
    p.multiplicity r = p.toPolynomial.rootMultiplicity r := by
  obtain ⟨c, hc, nonzero⟩ := exists_multiplicity_factor hp r
  have simple : ¬ c.toPolynomial.IsRoot r := mt isRoot_toPolynomial.mp nonzero
  have hc0 : c.toPolynomial ≠ 0 := by
    intro h0
    rw [h0] at simple
    exact simple Polynomial.eval_zero
  symm
  calc p.toPolynomial.rootMultiplicity r
      = (c.toPolynomial * (Polynomial.X - Polynomial.C r) ^ p.multiplicity r).rootMultiplicity r := by
        rw [← hc]
    _ = c.toPolynomial.rootMultiplicity r + p.multiplicity r :=
        Polynomial.rootMultiplicity_mul_X_sub_C_pow hc0
    _ = p.multiplicity r := by rw [Polynomial.rootMultiplicity_eq_zero simple, zero_add]

private theorem pow_dvd_iff_le_multiplicity (hp : p ≠ 0) :
    (Polynomial.X - Polynomial.C r) ^ m ∣ p.toPolynomial ↔ m ≤ p.multiplicity r := by
  rw [multiplicity_eq_rootMultiplicity hp,
    Polynomial.le_rootMultiplicity_iff (mt eq_zero_iff.mpr hp)]

theorem multiplicity_pos_iff (hp : p ≠ 0) : 0 < p.multiplicity r ↔ p.eval r = 0 := by
  rw [multiplicity_eq_rootMultiplicity hp, Polynomial.rootMultiplicity_pos (mt eq_zero_iff.mpr hp),
    isRoot_toPolynomial]

private theorem multiplicity_product {s : Poly} (hp : p ≠ 0) (hq : q ≠ 0)
    (h : s.toPolynomial = p.toPolynomial * q.toPolynomial) (r : Rat) :
    s.multiplicity r = p.multiplicity r + q.multiplicity r := by
  have nonzero : p.toPolynomial * q.toPolynomial ≠ 0 :=
    mul_ne_zero (mt eq_zero_iff.mpr hp) (mt eq_zero_iff.mpr hq)
  have hs : s ≠ 0 := by
    rwa [ne_eq, eq_zero_iff, h]
  rw [multiplicity_eq_rootMultiplicity hs, multiplicity_eq_rootMultiplicity hp,
    multiplicity_eq_rootMultiplicity hq, h, Polynomial.rootMultiplicity_mul nonzero]

theorem natDegree_linear (r : Rat) : (linear r).toPolynomial.natDegree = 1 := by
  rw [natDegree_toPolynomial, bound_linear]

theorem toPolynomial_power_linear (hp : p ≠ 0) (r : Rat) :
    ((linear r).power (p.multiplicity r)).toPolynomial =
      (Polynomial.X - Polynomial.C r) ^ p.multiplicity r := by
  have order := (multiplicity_lt_bound hp r).trans_le p.bound_le_size
  rw [toPolynomial_power (by rwa [natDegree_linear, Nat.mul_one]), toPolynomial_linear]

/-- The multiplicity of a root of a polynomial other than zero. The loop that counts it ends, after fewer
divisions than there are coefficients. The count is the only number of which the power of `x - r` divides
and the next power does not; it is positive exactly for a root, and that of a product is the sum. -/
theorem multiplicity_counts (hp : p ≠ 0) (r : Rat) :
    (∃ c, LinearDivisions r p (p.multiplicity r) c) ∧ p.multiplicity r < p.bound ∧
    (∀ m, (Polynomial.X - Polynomial.C r) ^ m ∣ p.toPolynomial ∧
      ¬ (Polynomial.X - Polynomial.C r) ^ (m + 1) ∣ p.toPolynomial ↔ m = p.multiplicity r) ∧
    (0 < p.multiplicity r ↔ p.eval r = 0) ∧
    ∀ q s : Poly, q ≠ 0 → s.toPolynomial = p.toPolynomial * q.toPolynomial →
      s.multiplicity r = p.multiplicity r + q.multiplicity r := by
  refine ⟨exists_linearDivisions hp r, multiplicity_lt_bound hp r, ?_, multiplicity_pos_iff hp, ?_⟩
  · intro m
    rw [pow_dvd_iff_le_multiplicity hp, pow_dvd_iff_le_multiplicity hp]
    omega
  · intro q s hq hs
    exact multiplicity_product hp hq hs r

/-- The root `1/2` is a double one of `(x - 1/2)² (x - 3)` and a simple one of `(x - 1/2) (x² + 1)`. -/
theorem multiplicity_counts_double_root :
    let p := linear (1 / 2) * linear (1 / 2) * linear 3
    let q := linear (1 / 2) * ofCoeffs [1, 0, 1]
    p ≠ 0 ∧ q ≠ 0 ∧ p.multiplicity (1 / 2) = 2 ∧
      (Polynomial.X - Polynomial.C (1 / 2)) ^ 2 ∣ p.toPolynomial ∧
      ¬ (Polynomial.X - Polynomial.C (1 / 2)) ^ 3 ∣ p.toPolynomial ∧
      (p * q).multiplicity (1 / 2) = 3 := by
  intro p q
  have hp : p ≠ 0 := by decide +kernel
  have hq : q ≠ 0 := by decide +kernel
  have two : p.multiplicity (1 / 2) = 2 := by decide +kernel
  have one : q.multiplicity (1 / 2) = 1 := by decide +kernel
  have fits : p.productFits q = true := by decide +kernel
  obtain ⟨-, -, unique, -, product⟩ := multiplicity_counts hp (1 / 2)
  obtain ⟨square, cube⟩ := (unique 2).mpr two.symm
  have three := product q (p * q) hq (toPolynomial_mul_of_fits fits)
  rw [two, one] at three
  exact ⟨hp, hq, two, square, cube, three⟩

end Tutor.Poly
