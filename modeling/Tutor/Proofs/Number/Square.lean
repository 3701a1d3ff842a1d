import Mathlib.Data.Rat.Lemmas
import Mathlib.Algebra.Order.Ring.Rat
import Mathlib.Tactic.Ring
import Tutor.Number.Factor

/-!
Exact square roots of rationals, and integers written as a square times a rest.
-/

set_option autoImplicit false
set_option relaxedAutoImplicit false

namespace Tutor.Number

theorem exactRationalSqrt?_spec {q r : Rat} (h : exactRationalSqrt? q = some r) :
    0 ≤ r ∧ r * r = q := by
  simp only [exactRationalSqrt?, Option.bind_eq_bind] at h
  split at h
  · cases h
  · rename_i hq
    obtain ⟨n, hn, h⟩ := Option.bind_eq_some_iff.mp h
    obtain ⟨d, hd, h⟩ := Option.bind_eq_some_iff.mp h
    obtain rfl : mkRat n d = r := by simpa using h
    rw [exactSqrt?_eq_some_iff] at hn hd
    rw [Rat.mkRat_eq_div]
    refine ⟨div_nonneg (mod_cast Nat.zero_le n) (mod_cast Nat.zero_le d), ?_⟩
    have num : ((n * n : ℕ) : ℤ) = q.num := by
      rw [hn]
      exact Int.toNat_of_nonneg (Rat.num_nonneg.mpr (not_lt.mp hq))
    have numRat : (n : ℚ) * n = (q.num : ℚ) := by exact_mod_cast num
    have denRat : (d : ℚ) * d = (q.den : ℚ) := by exact_mod_cast hd
    rw [Int.cast_natCast, div_mul_div_comm, numRat, denRat, Rat.num_div_den]

private theorem product_of_splitSquareFrom {d root rest s r : Nat}
    (h : splitSquareFrom d root rest = (s, r)) : s * s * r = root * root * rest := by
  have product := splitSquareFrom_product d root rest
  rw [h] at product
  exact product

theorem product_of_splitSquare {n s r : Nat} (h : splitSquare n = (s, r)) : s * s * r = n := by
  rw [splitSquare] at h
  rcases hs : splitSquareFrom 2 1 n with ⟨root, rest⟩
  have whole : root * root * rest = n := by
    rw [product_of_splitSquareFrom hs, one_mul, one_mul]
  rw [hs, absorbSquare] at h
  cases hr : exactSqrt? rest with
  | none =>
    simp only [hr, Prod.mk.injEq] at h
    rw [← h.1, ← h.2, whole]
  | some t =>
    simp only [hr] at h
    rw [exactSqrt?_eq_some_iff] at hr
    split_ifs at h
    · simp only [Prod.mk.injEq] at h
      rw [← h.1, ← h.2, ← whole, ← hr]
      ring
    · simp only [Prod.mk.injEq] at h
      rw [← h.1, ← h.2, whole]

theorem not_isSquare_of_splitSquare {n s r : Nat} (h : splitSquare n = (s, r)) (hn : n ≠ 0)
    (hr : r ≠ 1) : ¬ IsSquare r := by
  have product := product_of_splitSquare h
  rw [splitSquare] at h
  rcases hs : splitSquareFrom 2 1 n with ⟨root, rest⟩
  rw [hs, absorbSquare] at h
  rintro ⟨t, rfl⟩
  cases hrest : exactSqrt? rest with
  | none =>
    simp only [hrest, Prod.mk.injEq] at h
    rw [exactSqrt?_eq_some_iff.mpr h.2.symm] at hrest
    cases hrest
  | some t' =>
    simp only [hrest] at h
    split_ifs at h with large
    · exact hr (Prod.mk.inj h).2.symm
    · rw [(Prod.mk.inj h).2] at large
      have positive : t * t ≠ 0 := fun h0 => hn (by rw [← product, h0, mul_zero])
      omega

end Tutor.Number
