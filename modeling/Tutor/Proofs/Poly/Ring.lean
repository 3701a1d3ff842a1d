import Mathlib
import Tutor.Poly.Basic

/-!
A list of terms denotes a polynomial over the rationals of a degree that is a word. Every operation on such
lists is the operation of the ring of polynomials; of products the powers wrap around, so they are those of
the ring as long as the degree of the product is a word. Degree and leading coefficient are read off the
first term, and two lists of terms that denote one polynomial are equal.
-/

set_option autoImplicit false
set_option relaxedAutoImplicit false

open scoped Polynomial

namespace Tutor.Poly

noncomputable def sumOfTerms (ts : List Term) : ℚ[X] :=
  (ts.map fun t => Polynomial.monomial t.1 t.2).sum

noncomputable def toPolynomial (p : Poly) : ℚ[X] := sumOfTerms p.terms

theorem sumOfTerms_nil : sumOfTerms [] = 0 := rfl

theorem sumOfTerms_cons (n : Nat) (c : Rat) (ts : List Term) :
    sumOfTerms ((n, c) :: ts) = Polynomial.monomial n c + sumOfTerms ts := by
  rw [sumOfTerms, List.map_cons, List.sum_cons, sumOfTerms]

/-! ### Addition and multiplication -/

private theorem addTerms_nil_right (p : List Term) : addTerms p [] = p := by
  cases p with
  | nil => rw [addTerms]
  | cons t ts => rw [addTerms]; exact List.cons_ne_nil t ts

private theorem sumOfTerms_addTerms (p q : List Term) :
    sumOfTerms (addTerms p q) = sumOfTerms p + sumOfTerms q := by
  induction p, q using addTerms.induct with
  | case1 q => rw [addTerms, sumOfTerms_nil, zero_add]
  | case2 p _ => rw [addTerms_nil_right, sumOfTerms_nil, add_zero]
  | case3 n c p m d q h ih =>
    rw [addTerms, if_pos h, sumOfTerms_cons, ih, sumOfTerms_cons n c, add_assoc]
  | case4 n c p m d q h h' ih =>
    rw [addTerms, if_neg h, if_pos h', sumOfTerms_cons, ih, sumOfTerms_cons m d]
    ring
  | case5 n c p m d q h h' h0 ih =>
    obtain rfl : n = m := by omega
    have cancel : Polynomial.monomial n c + Polynomial.monomial n d = 0 := by
      rw [← map_add, h0, map_zero]
    rw [addTerms, if_neg h, if_neg h', if_pos h0, ih, sumOfTerms_cons, sumOfTerms_cons]
    linear_combination -cancel
  | case6 n c p m d q h h' h0 ih =>
    obtain rfl : n = m := by omega
    rw [addTerms, if_neg h, if_neg h', if_neg h0, sumOfTerms_cons, ih, sumOfTerms_cons,
      sumOfTerms_cons, map_add]
    ring

private theorem sumOfTerms_scaleTerms (c : Rat) (ts : List Term) :
    sumOfTerms (scaleTerms c ts) = sumOfTerms ts * Polynomial.C c := by
  induction ts with
  | nil => rw [scaleTerms, List.map_nil, sumOfTerms_nil, zero_mul]
  | cons t ts ih =>
    rw [scaleTerms, List.map_cons, sumOfTerms_cons, ← scaleTerms, ih, sumOfTerms_cons, add_mul,
      Polynomial.monomial_mul_C]

theorem toPolynomial_zero : (0 : Poly).toPolynomial = 0 := rfl

noncomputable def wrap : ℚ[X] →ₗ[ℚ] ℚ[X] :=
  Polynomial.lsum fun n => Polynomial.monomial (n % UInt64.size)

private theorem wrap_monomial (n : Nat) (c : Rat) :
    wrap (Polynomial.monomial n c) = Polynomial.monomial (n % UInt64.size) c :=
  Polynomial.sum_monomial_index c _ (map_zero _)

private theorem wrap_eq_self {f : ℚ[X]} (h : f.natDegree < UInt64.size) : wrap f = f := by
  calc wrap f = f.sum fun n c => Polynomial.monomial (n % UInt64.size) c := rfl
    _ = f.sum fun n c => Polynomial.monomial n c := by
        refine Finset.sum_congr rfl fun n hn => ?_
        have word := (Polynomial.le_natDegree_of_mem_supp n hn).trans_lt h
        exact congrArg (Polynomial.monomial · (f.coeff n)) (Nat.mod_eq_of_lt word)
    _ = f := f.sum_monomial_eq

private theorem toPolynomial_monomial_eq_wrap (k : Nat) (c : Rat) :
    (monomial k c).toPolynomial = wrap (Polynomial.monomial k c) := by
  rw [wrap_monomial, monomial]
  split
  · rename_i h
    rw [h, map_zero]
    rfl
  · rw [toPolynomial, sumOfTerms_cons, sumOfTerms_nil, add_zero]

theorem toPolynomial_monomial {k : Nat} (hk : k < UInt64.size) (c : Rat) :
    (monomial k c).toPolynomial = Polynomial.monomial k c := by
  rw [toPolynomial_monomial_eq_wrap, wrap_monomial, Nat.mod_eq_of_lt hk]

theorem toPolynomial_const (c : Rat) : (const c).toPolynomial = Polynomial.C c :=
  toPolynomial_monomial (by decide) c

theorem toPolynomial_x : x.toPolynomial = Polynomial.X :=
  (toPolynomial_monomial (by decide) 1).trans Polynomial.monomial_one_one_eq_X

theorem toPolynomial_one : (1 : Poly).toPolynomial = 1 :=
  (toPolynomial_const 1).trans (map_one _)

theorem toPolynomial_linear (r : Rat) :
    (linear r).toPolynomial = Polynomial.X - Polynomial.C r := by
  unfold linear
  split
  · rename_i h
    rw [h, map_zero, sub_zero, toPolynomial_x]
  · rw [toPolynomial, sumOfTerms_cons, sumOfTerms_cons, sumOfTerms_nil, add_zero,
      Polynomial.monomial_one_one_eq_X, Polynomial.monomial_zero_left, map_neg, sub_eq_add_neg]

theorem toPolynomial_add (p q : Poly) : (p + q).toPolynomial = p.toPolynomial + q.toPolynomial :=
  sumOfTerms_addTerms p.terms q.terms

theorem toPolynomial_scale (p : Poly) (c : Rat) :
    (p.scale c).toPolynomial = p.toPolynomial * Polynomial.C c := by
  unfold scale
  split
  · rename_i h
    rw [h, map_zero, mul_zero]
    rfl
  · exact sumOfTerms_scaleTerms c p.terms

theorem toPolynomial_neg (p : Poly) : (-p).toPolynomial = -p.toPolynomial := by
  have scaled := toPolynomial_scale p (-1)
  rw [map_neg, map_one, mul_neg_one] at scaled
  exact scaled

theorem toPolynomial_sub (p q : Poly) : (p - q).toPolynomial = p.toPolynomial - q.toPolynomial := by
  rw [sub_eq_add_neg, ← toPolynomial_neg]
  exact toPolynomial_add p (-q)

private theorem toPolynomial_shift_eq_wrap (k : Nat) (c : Rat) (p : Poly) :
    (p.shift k c).toPolynomial = wrap (p.toPolynomial * Polynomial.monomial k c) := by
  have partialSum (ts : List Term) :
      (ts.foldr (fun t acc => (monomial (t.1 + k) (t.2 * c)).add acc) zero).toPolynomial =
        wrap (sumOfTerms ts * Polynomial.monomial k c) := by
    induction ts with
    | nil => rw [List.foldr_nil, sumOfTerms_nil, zero_mul, map_zero]; rfl
    | cons t ts ih =>
      rw [List.foldr_cons, sumOfTerms_cons, add_mul, Polynomial.monomial_mul_monomial, map_add, ← ih,
        ← toPolynomial_monomial_eq_wrap]
      exact toPolynomial_add _ _
  exact partialSum p.terms

/-- The product is that of the ring of polynomials, with powers wrapped around. -/
private theorem toPolynomial_mul_eq_wrap (p q : Poly) :
    (p * q).toPolynomial = wrap (p.toPolynomial * q.toPolynomial) := by
  have partialSum (ts : List Term) :
      (ts.foldr (fun t acc => (q.shift t.1 t.2).add acc) zero).toPolynomial =
        wrap (sumOfTerms ts * q.toPolynomial) := by
    induction ts with
    | nil => rw [List.foldr_nil, sumOfTerms_nil, zero_mul, map_zero]; rfl
    | cons t ts ih =>
      rw [List.foldr_cons, sumOfTerms_cons, add_mul, map_add, ← ih, mul_comm,
        ← toPolynomial_shift_eq_wrap]
      exact toPolynomial_add _ _
  exact partialSum p.terms

theorem toPolynomial_derivative (p : Poly) :
    p.derivative.toPolynomial = Polynomial.derivative p.toPolynomial := by
  have partialSum (ts : List Term) (h : Below UInt64.size ts) :
      (ts.foldr (fun t acc => monomial (t.1 - 1) (t.2 * (t.1 : Rat)) + acc) 0).toPolynomial =
        Polynomial.derivative (sumOfTerms ts) := by
    induction ts with
    | nil => rw [List.foldr_nil, sumOfTerms_nil, map_zero]; rfl
    | cons t ts ih =>
      have ⟨ht, hts⟩ := below_cons.mp h
      rw [List.foldr_cons, sumOfTerms_cons, map_add, Polynomial.derivative_monomial, ← ih hts,
        ← toPolynomial_monomial (by omega)]
      exact toPolynomial_add _ _
  exact partialSum p.terms p.words

/-! ### Values -/

noncomputable def valueAt (p : Poly) (a : ℝ) : ℝ :=
  p.terms.foldr (fun t acc => t.2 * a ^ t.1 + acc) 0

theorem eval_toPolynomial (p : Poly) (a : Rat) : p.toPolynomial.eval a = p.eval a := by
  have partialSum (ts : List Term) :
      (sumOfTerms ts).eval a = ts.foldr (fun t acc => t.2 * a ^ t.1 + acc) 0 := by
    induction ts with
    | nil => rw [sumOfTerms_nil, Polynomial.eval_zero, List.foldr_nil]
    | cons t ts ih =>
      rw [sumOfTerms_cons, Polynomial.eval_add, Polynomial.eval_monomial, ih, List.foldr_cons]
  exact partialSum p.terms

theorem isRoot_toPolynomial {p : Poly} {a : Rat} : p.toPolynomial.IsRoot a ↔ p.eval a = 0 := by
  rw [Polynomial.IsRoot, eval_toPolynomial]

theorem aeval_toPolynomial (p : Poly) (a : ℝ) : Polynomial.aeval a p.toPolynomial = p.valueAt a := by
  have partialSum (ts : List Term) : Polynomial.aeval a (sumOfTerms ts) =
      ts.foldr (fun t acc => (t.2 : ℝ) * a ^ t.1 + acc) 0 := by
    induction ts with
    | nil => rw [sumOfTerms_nil, map_zero, List.foldr_nil]
    | cons t ts ih =>
      rw [sumOfTerms_cons, map_add, Polynomial.aeval_monomial, ih, List.foldr_cons, eq_ratCast]
  exact partialSum p.terms

/-! ### Degree, leading coefficient and equality -/

theorem coeff_sumOfTerms_of_below {n : Nat} {ts : List Term} (h : Below n ts) :
    (sumOfTerms ts).coeff n = 0 := by
  induction ts with
  | nil => rfl
  | cons t ts ih =>
    have ⟨ht, hts⟩ := below_cons.mp h
    rw [sumOfTerms_cons, Polynomial.coeff_add, ih hts, Polynomial.coeff_monomial, if_neg ht.ne,
      add_zero]

theorem coeff_toPolynomial (p : Poly) (n : Nat) : p.toPolynomial.coeff n = p.coeff n := by
  have lookup (ts : List Term) (h : Canonical ts) :
      (sumOfTerms ts).coeff n = (ts.lookup n).getD 0 := by
    induction ts with
    | nil => rfl
    | cons t ts ih =>
      obtain ⟨k, c⟩ := t
      have ⟨_, hb, hts⟩ := canonical_cons.mp h
      rw [sumOfTerms_cons, Polynomial.coeff_add, Polynomial.coeff_monomial, List.lookup_cons]
      by_cases hk : k = n
      · rw [if_pos hk, hk, beq_self_eq_true, coeff_sumOfTerms_of_below (hk ▸ hb), add_zero]
        rfl
      · rw [if_neg hk, zero_add, ih hts, beq_false_of_ne (Ne.symm hk)]
  exact lookup p.terms p.canonical

theorem toPolynomial_coeff_of_bound_le {p : Poly} {n : Nat} (h : p.bound ≤ n) :
    p.toPolynomial.coeff n = 0 :=
  coeff_sumOfTerms_of_below ((bound_le_iff p n).mp h)

theorem highest_of_canonical {k : Nat} {c : Rat} {ts : List Term} (h : Canonical ((k, c) :: ts)) :
    (sumOfTerms ((k, c) :: ts)).natDegree = k ∧ (sumOfTerms ((k, c) :: ts)).leadingCoeff = c ∧
      sumOfTerms ((k, c) :: ts) ≠ 0 := by
  have ⟨hc, hb, _⟩ := canonical_cons.mp h
  have top : (sumOfTerms ((k, c) :: ts)).coeff k = c := by
    rw [sumOfTerms_cons, Polynomial.coeff_add, Polynomial.coeff_monomial, if_pos rfl,
      coeff_sumOfTerms_of_below hb, add_zero]
  have degree : (sumOfTerms ((k, c) :: ts)).natDegree = k := by
    refine Polynomial.natDegree_eq_of_le_of_coeff_ne_zero ?_ (by rwa [top])
    refine Polynomial.natDegree_le_iff_coeff_eq_zero.mpr fun n hn => ?_
    exact coeff_sumOfTerms_of_below (below_cons.mpr ⟨hn, hb.mono hn.le⟩)
  refine ⟨degree, by rw [Polynomial.leadingCoeff, degree, top], ?_⟩
  intro hzero
  rw [hzero, Polynomial.coeff_zero] at top
  exact hc top.symm

theorem exists_highest {p : Poly} (h : p.bound ≠ 0) :
    p.bound = p.toPolynomial.natDegree + 1 ∧ p.leading = p.toPolynomial.leadingCoeff ∧
      p.toPolynomial ≠ 0 := by
  obtain ⟨ts, canonical, words⟩ := p
  cases ts with
  | nil => exact absurd rfl h
  | cons t ts =>
    obtain ⟨degree, leading, nonzero⟩ := highest_of_canonical canonical
    exact ⟨congrArg (· + 1) degree.symm, leading.symm, nonzero⟩

theorem toPolynomial_eq_zero_iff {p : Poly} : p.toPolynomial = 0 ↔ p.bound = 0 := by
  constructor
  · intro hzero
    by_contra h
    exact (exists_highest h).2.2 hzero
  · intro h
    rw [bound_eq_zero_iff, isZero, List.isEmpty_iff] at h
    rw [toPolynomial, h, sumOfTerms_nil]

theorem isZero_iff {p : Poly} : p.isZero = true ↔ p.toPolynomial = 0 := by
  rw [toPolynomial_eq_zero_iff, bound_eq_zero_iff]

theorem bound_eq_natDegree_add_one {p : Poly} (h : p.toPolynomial ≠ 0) :
    p.bound = p.toPolynomial.natDegree + 1 :=
  (exists_highest (mt toPolynomial_eq_zero_iff.mpr h)).1

theorem natDegree_toPolynomial (p : Poly) : p.toPolynomial.natDegree = p.bound - 1 := by
  by_cases h : p.toPolynomial = 0
  · rw [h, Polynomial.natDegree_zero, toPolynomial_eq_zero_iff.mp h]
  · rw [bound_eq_natDegree_add_one h, Nat.add_sub_cancel]

theorem natDegree_toPolynomial_lt (p : Poly) : p.toPolynomial.natDegree < UInt64.size := by
  have bound := p.bound_le_size
  have size : 0 < UInt64.size := by decide
  rw [natDegree_toPolynomial]
  omega

theorem degree_lt_of_bound_lt {p q : Poly} (h : p.bound < q.bound) :
    p.toPolynomial.degree < q.toPolynomial.degree := by
  have hq : q.toPolynomial ≠ 0 := mt toPolynomial_eq_zero_iff.mp (by omega)
  rw [Polynomial.degree_eq_natDegree hq, Polynomial.degree_lt_iff_coeff_zero]
  intro n hn
  refine toPolynomial_coeff_of_bound_le ?_
  have := bound_eq_natDegree_add_one hq
  omega

theorem leading_eq_leadingCoeff (p : Poly) : p.leading = p.toPolynomial.leadingCoeff := by
  by_cases h : p.bound = 0
  · rw [toPolynomial_eq_zero_iff.mpr h, Polynomial.leadingCoeff_zero]
    rw [bound_eq_zero_iff, isZero, List.isEmpty_iff] at h
    rw [leading, h]
    rfl
  · exact (exists_highest h).2.1

private theorem eq_of_sumOfTerms_eq {ts us : List Term} (hts : Canonical ts) (hus : Canonical us)
    (h : sumOfTerms ts = sumOfTerms us) : ts = us := by
  induction ts generalizing us with
  | nil =>
    cases us with
    | nil => rfl
    | cons u us => exact absurd h.symm (highest_of_canonical hus).2.2
  | cons t ts ih =>
    cases us with
    | nil => exact absurd h (highest_of_canonical hts).2.2
    | cons u us =>
      obtain ⟨degree, leading, -⟩ := highest_of_canonical hts
      obtain ⟨degree', leading', -⟩ := highest_of_canonical hus
      rw [h] at degree leading
      obtain rfl : t = u := Prod.ext (degree.symm.trans degree') (leading.symm.trans leading')
      rw [sumOfTerms_cons, sumOfTerms_cons, add_right_inj] at h
      rw [ih (canonical_cons.mp hts).2.2 (canonical_cons.mp hus).2.2 h]

theorem toPolynomial_injective : Function.Injective toPolynomial := by
  intro p q h
  obtain ⟨ts, hts, _⟩ := p
  obtain ⟨us, hus, _⟩ := q
  obtain rfl := eq_of_sumOfTerms_eq hts hus h
  rfl

theorem eq_zero_iff {p : Poly} : p = 0 ↔ p.toPolynomial = 0 := by
  rw [← toPolynomial_injective.eq_iff, toPolynomial_zero]

theorem toPolynomial_monic (p : Poly) :
    p.monic.toPolynomial = p.toPolynomial * Polynomial.C p.toPolynomial.leadingCoeff⁻¹ := by
  unfold monic
  split
  · rename_i h
    rw [isZero_iff.mp h, zero_mul]
  · rw [toPolynomial_scale, leading_eq_leadingCoeff, one_div]

/-! ### Products and powers whose degree is a word -/

theorem toPolynomial_mul {p q : Poly}
    (h : p.toPolynomial.natDegree + q.toPolynomial.natDegree < UInt64.size) :
    (p * q).toPolynomial = p.toPolynomial * q.toPolynomial := by
  rw [toPolynomial_mul_eq_wrap, wrap_eq_self]
  exact Polynomial.natDegree_mul_le.trans_lt h

theorem toPolynomial_shift {k : Nat} {p : Poly} (h : p.toPolynomial.natDegree + k < UInt64.size)
    (c : Rat) : (p.shift k c).toPolynomial = p.toPolynomial * Polynomial.monomial k c := by
  rw [toPolynomial_shift_eq_wrap, wrap_eq_self]
  have := (Polynomial.natDegree_mul_le (p := p.toPolynomial) (q := Polynomial.monomial k c))
  have := Polynomial.natDegree_monomial_le (R := ℚ) c (m := k)
  omega

/-- Squaring the base and halving the exponent is raising to the power. The last square may wrap around,
since it is not used. -/
private theorem toPolynomial_powerFrom {p b : Poly} {n : Nat}
    (h : p.toPolynomial.natDegree + n * b.toPolynomial.natDegree < UInt64.size) :
    (powerFrom p b n).toPolynomial = p.toPolynomial * b.toPolynomial ^ n := by
  induction n using Nat.strongRecOn generalizing p b with
  | ind n ih =>
    by_cases h0 : n = 0
    · rw [powerFrom, if_pos h0, h0, pow_zero, mul_one]
    have once : b.toPolynomial.natDegree ≤ n * b.toPolynomial.natDegree :=
      Nat.le_mul_of_pos_left _ (Nat.pos_of_ne_zero h0)
    have odd : (p * b).toPolynomial = p.toPolynomial * b.toPolynomial := toPolynomial_mul (by omega)
    by_cases h1 : n = 1
    · rw [powerFrom, if_neg h0, h1, if_pos rfl, powerFrom, if_pos (by decide), odd, pow_one]
    have twice : 2 * b.toPolynomial.natDegree ≤ n * b.toPolynomial.natDegree :=
      Nat.mul_le_mul_right _ (by omega)
    have square : (b * b).toPolynomial = b.toPolynomial ^ 2 := by
      rw [toPolynomial_mul (by omega), sq]
    have halves : n / 2 * (2 * b.toPolynomial.natDegree) + n % 2 * b.toPolynomial.natDegree =
        n * b.toPolynomial.natDegree := by
      rw [← Nat.mul_assoc, ← Nat.add_mul, show n / 2 * 2 + n % 2 = n by omega]
    rw [powerFrom, if_neg h0]
    split_ifs with hodd
    · rw [hodd, Nat.one_mul] at halves
      have degree := Polynomial.natDegree_mul_le (p := p.toPolynomial) (q := b.toPolynomial)
      rw [ih (n / 2) (by omega), odd, square, ← pow_mul, mul_assoc, ← pow_succ',
        show 2 * (n / 2) + 1 = n by omega]
      rw [odd, square, Polynomial.natDegree_pow]
      omega
    · rw [ih (n / 2) (by omega), square, ← pow_mul, show 2 * (n / 2) = n by omega]
      rw [square, Polynomial.natDegree_pow]
      omega

theorem toPolynomial_power {p : Poly} {n : Nat} (h : n * p.toPolynomial.natDegree < UInt64.size) :
    (p.power n).toPolynomial = p.toPolynomial ^ n := by
  rw [power, toPolynomial_powerFrom, toPolynomial_one, one_mul]
  rwa [toPolynomial_one, Polynomial.natDegree_one, Nat.zero_add]

end Tutor.Poly
