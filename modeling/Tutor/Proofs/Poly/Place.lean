import Mathlib

/-!
The order of a polynomial at the complex points and at infinity. It adds up over a product, is not lowered
by a sum, and the orders at all points together are zero: a polynomial has as many zeros as its degree says,
and its degree is the order of its pole at infinity.
-/

set_option autoImplicit false
set_option relaxedAutoImplicit false

namespace Tutor

open Filter Polynomial

abbrev Place := Option ℂ

namespace Place

/-- The order of the zero of a polynomial; the order of a pole is negative. -/
noncomputable def order : Place → ℚ[X] → ℤ
  | none, p => -p.natDegree
  | some z, p => (p.map (algebraMap ℚ ℂ)).rootMultiplicity z

variable (P : Place) {p q : ℚ[X]}

private theorem map_ne_zero (hp : p ≠ 0) : p.map (algebraMap ℚ ℂ) ≠ 0 :=
  (Polynomial.map_ne_zero_iff (algebraMap ℚ ℂ).injective).mpr hp

@[simp]
theorem order_C (c : ℚ) : P.order (C c) = 0 := by
  cases P with
  | none => rw [order, natDegree_C, Nat.cast_zero, neg_zero]
  | some z => rw [order, map_C, rootMultiplicity_C, Nat.cast_zero]

@[simp]
theorem order_one : P.order 1 = 0 := by
  rw [← C_1, order_C]

theorem order_mul (hp : p ≠ 0) (hq : q ≠ 0) : P.order (p * q) = P.order p + P.order q := by
  cases P with
  | none => rw [order, order, order, natDegree_mul hp hq, Nat.cast_add, neg_add]
  | some z =>
    rw [order, order, order, Polynomial.map_mul,
      rootMultiplicity_mul (mul_ne_zero (map_ne_zero hp) (map_ne_zero hq)), Nat.cast_add]

@[simp]
theorem order_neg (p : ℚ[X]) : P.order (-p) = P.order p := by
  rcases eq_or_ne p 0 with rfl | hp
  · rw [neg_zero]
  · have sign : -p = C (-1) * p := by rw [C_neg, C_1, neg_one_mul]
    rw [sign, order_mul P (C_ne_zero.mpr (by norm_num)) hp, order_C, zero_add]

theorem order_pow (hp : p ≠ 0) (n : ℕ) : P.order (p ^ n) = n * P.order p := by
  induction n with
  | zero => rw [pow_zero, order_one, Nat.cast_zero, zero_mul]
  | succ n ih =>
    rw [pow_succ, order_mul P (pow_ne_zero n hp) hp, ih, Nat.cast_succ]
    ring

theorem min_order_le_order_add (h : p + q ≠ 0) : min (P.order p) (P.order q) ≤ P.order (p + q) := by
  cases P with
  | none =>
    have degree := natDegree_add_le p q
    simp only [order]
    omega
  | some z =>
    have zeros := rootMultiplicity_add z (p := p.map (algebraMap ℚ ℂ)) (q := q.map (algebraMap ℚ ℂ))
      (Polynomial.map_add (algebraMap ℚ ℂ) ▸ map_ne_zero h)
    simp only [order, Polynomial.map_add]
    exact_mod_cast zeros

theorem order_eq_zero_or_of_isCoprime (h : IsCoprime p q) (z : ℂ) :
    order (some z) p = 0 ∨ order (some z) q = 0 := by
  have root {p : ℚ[X]} (h0 : order (some z) p ≠ 0) : (p.map (algebraMap ℚ ℂ)).eval z = 0 := by
    by_contra no_root
    exact h0 (by rw [order, rootMultiplicity_eq_zero no_root, Nat.cast_zero])
  by_contra! both
  obtain ⟨u, w, bezout⟩ := h
  have value := congrArg (fun r => (r.map (algebraMap ℚ ℂ)).eval z) bezout
  simp only [Polynomial.map_add, Polynomial.map_mul, eval_add, eval_mul, root both.1, root both.2,
    Polynomial.map_one, eval_one, mul_zero, add_zero] at value
  exact zero_ne_one value

theorem sum_order_roots (p : ℚ[X]) :
    ∑ z ∈ (p.map (algebraMap ℚ ℂ)).roots.toFinset, order (some z) p = p.natDegree := by
  have count : ∑ z ∈ (p.map (algebraMap ℚ ℂ)).roots.toFinset,
      (p.map (algebraMap ℚ ℂ)).roots.count z = p.natDegree := by
    rw [Multiset.toFinset_sum_count_eq, IsAlgClosed.card_roots_eq_natDegree, natDegree_map]
  rw [← count, Nat.cast_sum]
  exact Finset.sum_congr rfl fun z _ => by rw [order, count_roots]

/-- The orders at all places together are zero. -/
theorem eventually_sum_order (hp : p ≠ 0) : ∀ᶠ S : Finset Place in atTop, ∑ P ∈ S, P.order p = 0 := by
  filter_upwards [eventually_ge_atTop (Finset.insertNone (p.map (algebraMap ℚ ℂ)).roots.toFinset)]
    with S hS
  rw [← Finset.sum_subset hS, Finset.sum_insertNone, sum_order_roots, order, neg_add_cancel]
  intro P _ hP
  cases P with
  | none => exact absurd Finset.none_mem_insertNone hP
  | some z =>
    rw [Finset.some_mem_insertNone, Multiset.mem_toFinset, mem_roots (map_ne_zero hp)] at hP
    rw [order, rootMultiplicity_eq_zero hP, Nat.cast_zero]

end Place

/-! ### Sums over all places -/

/-- Over all places together these are at most so many. -/
def DegreeLe (D : Place → Nat) (m : Nat) : Prop :=
  ∀ᶠ S : Finset Place in atTop, ∑ P ∈ S, D P ≤ m

namespace DegreeLe

variable {D D' : Place → Nat} {m n : Nat}

theorem mono (h : DegreeLe D m) (hD : ∀ P, D' P ≤ D P) : DegreeLe D' m :=
  Eventually.mono h fun _ hS => (Finset.sum_le_sum fun P _ => hD P).trans hS

theorem trans_le (h : DegreeLe D m) (hmn : m ≤ n) : DegreeLe D n := Eventually.mono h fun _ hS => hS.trans hmn

theorem zero : DegreeLe (fun _ => 0) m := .of_forall fun S => by simp

theorem add (h : DegreeLe D m) (h' : DegreeLe D' n) : DegreeLe (fun P => D P + D' P) (m + n) := by
  filter_upwards [h, h'] with S hS hS'
  rw [Finset.sum_add_distrib]
  exact Nat.add_le_add hS hS'

theorem max (h : DegreeLe D m) (h' : DegreeLe D' n) : DegreeLe (fun P => Nat.max (D P) (D' P)) (m + n) :=
  (h.add h').mono fun _ => Nat.max_le.mpr ⟨Nat.le_add_right _ _, Nat.le_add_left _ _⟩

theorem const_mul (h : DegreeLe D m) (k : Nat) : DegreeLe (fun P => k * D P) (k * m) := by
  filter_upwards [h] with S hS
  rw [← Finset.mul_sum]
  exact Nat.mul_le_mul_left k hS

theorem of_const_mul {k : Nat} (hk : 0 < k) (h : DegreeLe (fun P => k * D P) m) : DegreeLe D (m / k) := by
  filter_upwards [h] with S hS
  rw [← Finset.mul_sum] at hS
  rwa [Nat.le_div_iff_mul_le hk, Nat.mul_comm]

theorem poles_X : DegreeLe (fun P => (-P.order X).toNat) 1 := by
  have infinite (P : Place) : (-P.order X).toNat ≤ if P = none then 1 else 0 := by
    cases P with
    | none => simp [Place.order]
    | some z => simp [Place.order]
  refine .of_forall fun S => (Finset.sum_le_sum fun P _ => infinite P).trans ?_
  rw [Finset.sum_ite_eq']
  split_ifs <;> omega

end DegreeLe

end Tutor
