import Tutor.Proofs.Poly.Division

/-!
The greatest common divisor in terms of divisibility in the ring of polynomials over the rationals. The
Euclidean loop replaces a pair by its divisor and remainder, so it ends within as many rounds as the second
polynomial has coefficients, and the polynomial it stops at, divided by its leading coefficient, is the one
monic common divisor that all others divide.
-/

set_option autoImplicit false
set_option relaxedAutoImplicit false

open scoped Polynomial

namespace Tutor.Poly

variable {a b : Poly}

/-! ### The Euclidean loop -/

def euclidRound (pair : Poly × Poly) : Poly × Poly := (pair.2, (divMod pair.1 pair.2).2)

private theorem exists_euclidRounds (a b : Poly) : ∃ n ≤ b.bound,
    (∀ k < n, (euclidRound^[k] (a, b)).2 ≠ 0) ∧ (euclidRound^[n] (a, b)).2 = 0 ∧
      gcd a b = (euclidRound^[n] (a, b)).1.monic := by
  induction a, b using gcd.induct with
  | case1 a b h =>
    refine ⟨0, Nat.zero_le _, fun k hk => absurd hk (Nat.not_lt_zero k), ?_, ?_⟩
    · exact eq_zero_iff.mpr (toPolynomial_eq_zero_iff.mpr h)
    · rw [gcd, dif_pos h]
      rfl
  | case2 a b h lower ih =>
    obtain ⟨n, hn, running, ended, result⟩ := ih
    refine ⟨n + 1, by omega, ?_, ended, ?_⟩
    · intro k hk
      cases k with
      | zero => exact fun hb => h (toPolynomial_eq_zero_iff.mp (eq_zero_iff.mp hb))
      | succ k => exact running k (by omega)
    · rw [gcd, dif_neg h]
      exact result

/-! ### The greatest common divisor -/

private theorem gcd_eq_zero_iff : gcd a b = 0 ↔ a = 0 ∧ b = 0 := by
  have divided (p : Poly) : p = 0 ↔ 0 ∣ p.toPolynomial := by rw [eq_zero_iff, zero_dvd_iff]
  rw [divided, divided, divided]
  exact dvd_gcd_iff a b 0

private theorem leading_gcd (h : a ≠ 0 ∨ b ≠ 0) : (gcd a b).leading = 1 := by
  rw [leading_eq_leadingCoeff]
  exact monic_gcd (h.imp (mt eq_zero_iff.mpr) (mt eq_zero_iff.mpr))

private theorem gcd_swap (a b : Poly) : gcd a b = gcd b a := by
  by_cases h : a = 0 ∧ b = 0
  · rw [h.1, h.2]
  · have nonzero : a ≠ 0 ∨ b ≠ 0 := by rwa [← not_and_or]
    have left := monic_gcd (nonzero.imp (mt eq_zero_iff.mpr) (mt eq_zero_iff.mpr))
    have right := monic_gcd (nonzero.symm.imp (mt eq_zero_iff.mpr) (mt eq_zero_iff.mpr))
    have forth := (dvd_gcd_iff b a _).mpr ⟨gcd_dvd_right a b, gcd_dvd_left a b⟩
    have back := (dvd_gcd_iff a b _).mpr ⟨gcd_dvd_right b a, gcd_dvd_left b a⟩
    exact toPolynomial_injective
      (Polynomial.eq_of_monic_of_associated left right (associated_of_dvd_dvd forth back))

/-- The greatest common divisor. The loop that computes it ends. It is zero for two zeros only, and has
otherwise leading coefficient one; it divides both polynomials, and every polynomial that divides both
divides it; so the order of the two does not matter. -/
theorem gcd_greatest (a b : Poly) :
    (∃ n ≤ b.bound, (∀ k < n, (euclidRound^[k] (a, b)).2 ≠ 0) ∧ (euclidRound^[n] (a, b)).2 = 0 ∧
      gcd a b = (euclidRound^[n] (a, b)).1.monic) ∧
    (gcd a b = 0 ↔ a = 0 ∧ b = 0) ∧
    (a ≠ 0 ∨ b ≠ 0 → (gcd a b).leading = 1) ∧
    (gcd a b).toPolynomial ∣ a.toPolynomial ∧ (gcd a b).toPolynomial ∣ b.toPolynomial ∧
    (∀ f : ℚ[X], f ∣ a.toPolynomial → f ∣ b.toPolynomial → f ∣ (gcd a b).toPolynomial) ∧
    gcd a b = gcd b a := by
  refine ⟨exists_euclidRounds a b, gcd_eq_zero_iff, leading_gcd, gcd_dvd_left a b, gcd_dvd_right a b, ?_,
    gcd_swap a b⟩
  intro f ha hb
  exact (dvd_gcd_iff a b f).mpr ⟨ha, hb⟩

example : gcd (linear 1 * linear (-1)) ((linear 1 * linear 0).scale 4) = linear 1 := by decide +kernel

end Tutor.Poly
