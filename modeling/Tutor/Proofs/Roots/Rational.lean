import Mathlib.RingTheory.Polynomial.RationalRoot
import Tutor.Proofs.Poly.Ring
import Tutor.Roots.Rational

/-!
The rational root that the search answers is a root: zero where there is no constant coefficient, and
otherwise the least candidate at which the value is zero. Every rational root is a candidate, by the
rational root theorem for the coefficients that the common denominator makes integers, so what is
answered is the least root.
-/

set_option autoImplicit false
set_option relaxedAutoImplicit false

open scoped Polynomial

namespace Tutor

/-! ### Divisors -/

namespace Number

private theorem floorSqrt_le_iff {n k : Nat} : k ≤ floorSqrt n ↔ k * k ≤ n := by
  have bounds := floorSqrt_bounds n
  constructor
  · intro h
    exact (Nat.mul_le_mul h h).trans bounds.1
  · intro h
    by_contra! less
    have := Nat.mul_le_mul (Nat.succ_le_of_lt less) (Nat.succ_le_of_lt less)
    exact absurd (this.trans h) (not_le.mpr bounds.2)

private theorem mem_divisors?_iff {n k : Nat} {ds : List Nat} (h : divisors? n = some ds) (hn : n ≠ 0) :
    k ∈ ds ↔ k ∣ n := by
  simp only [divisors?] at h
  split at h
  · cases h
  · obtain rfl := Option.some.inj h
    have small (d : Nat) : d ∈ (List.range' 1 (floorSqrt n)).filter (fun d => n % d = 0) ↔
        (1 ≤ d ∧ d * d ≤ n) ∧ d ∣ n := by
      rw [List.mem_filter, List.mem_range'_1, decide_eq_true_iff, ← Nat.dvd_iff_mod_eq_zero,
        Nat.add_comm, Nat.lt_succ_iff, floorSqrt_le_iff]
    rw [List.mem_append, List.mem_map]
    simp only [small]
    constructor
    · rintro (⟨-, hk⟩ | ⟨d, ⟨-, hd⟩, rfl⟩)
      · exact hk
      · exact Nat.div_dvd_of_dvd hd
    · intro hk
      have positive : 0 < k := Nat.pos_of_dvd_of_pos hk (Nat.pos_of_ne_zero hn)
      by_cases low : k * k ≤ n
      · exact .inl ⟨⟨positive, low⟩, hk⟩
      · refine .inr ⟨n / k, ⟨⟨Nat.div_pos (Nat.le_of_dvd (Nat.pos_of_ne_zero hn) hk) positive, ?_⟩,
          Nat.div_dvd_of_dvd hk⟩, Nat.div_div_self hk hn⟩
        have smaller : n / k ≤ k := Nat.div_le_of_le_mul (not_le.mp low).le
        calc n / k * (n / k) ≤ n / k * k := Nat.mul_le_mul_left _ smaller
          _ = n := Nat.div_mul_cancel hk

private theorem divisors?_eq_none_iff {n : Nat} : divisors? n = none ↔ 10 ^ 10 < n := by
  simp only [divisors?, ite_eq_left_iff, reduceCtorEq, imp_false, not_not]
  rfl

end Number

namespace Poly

variable {p : Poly} {q r : Rat}

/-! ### Integer coefficients -/

private theorem commonDenominator_pos (p : Poly) : 0 < p.commonDenominator := by
  have positive (ts : List Term) : 0 < ts.foldr (fun t m => Nat.lcm t.2.den m) 1 := by
    induction ts with
    | nil => exact Nat.one_pos
    | cons t ts ih =>
      rw [List.foldr_cons]
      exact Nat.lcm_pos t.2.den_pos ih
  exact positive p.terms

private theorem scaledCoeff_eq_zero_iff (p : Poly) (c : Rat) : p.scaledCoeff c = 0 ↔ c = 0 := by
  have hden : (p.commonDenominator : Rat) ≠ 0 := Nat.cast_ne_zero.mpr p.commonDenominator_pos.ne'
  rw [scaledCoeff, Rat.num_eq_zero, mul_eq_zero, or_iff_left hden]

theorem eval_zero (p : Poly) : p.eval 0 = p.coeff 0 := by
  rw [← eval_toPolynomial, ← coeff_toPolynomial, Polynomial.coeff_zero_eq_eval_zero]

private theorem den_coeff_dvd_commonDenominator (p : Poly) (n : Nat) :
    (p.coeff n).den ∣ p.commonDenominator := by
  have divides (ts : List Term) :
      ((ts.lookup n).getD 0).den ∣ ts.foldr (fun t m => Nat.lcm t.2.den m) 1 := by
    induction ts with
    | nil => exact Nat.dvd_refl 1
    | cons t ts ih =>
      rw [List.foldr_cons]
      obtain ⟨k, c⟩ := t
      rw [List.lookup_cons]
      split
      · exact Nat.dvd_lcm_left _ _
      · exact ih.trans (Nat.dvd_lcm_right _ _)
  exact divides p.terms

private theorem cast_scaledCoeff (p : Poly) (n : Nat) :
    (p.scaledCoeff (p.coeff n) : ℚ) = p.coeff n * p.commonDenominator := by
  obtain ⟨k, hk⟩ := den_coeff_dvd_commonDenominator p n
  have whole : p.coeff n * (p.commonDenominator : ℚ) = (((p.coeff n).num * k : ℤ) : ℚ) := by
    rw [hk]
    push_cast
    rw [← mul_assoc, Rat.mul_den_eq_num]
  rw [scaledCoeff, whole, Rat.num_intCast]

noncomputable def integral (p : Poly) : ℤ[X] :=
  ∑ n ∈ Finset.range p.bound, Polynomial.monomial n (p.scaledCoeff (p.coeff n))

private theorem coeff_integral (p : Poly) (n : Nat) : p.integral.coeff n = p.scaledCoeff (p.coeff n) := by
  rw [integral, Polynomial.finsetSum_coeff]
  simp only [Polynomial.coeff_monomial, Finset.sum_ite_eq', Finset.mem_range]
  split_ifs with h
  · rfl
  · rw [← coeff_toPolynomial, toPolynomial_coeff_of_bound_le (not_lt.mp h)]
    exact ((scaledCoeff_eq_zero_iff p 0).mpr rfl).symm

private theorem map_integral (p : Poly) : p.integral.map (Int.castRingHom ℚ) =
    Polynomial.C (p.commonDenominator : ℚ) * p.toPolynomial := by
  ext n
  rw [Polynomial.coeff_map, coeff_integral, Polynomial.coeff_C_mul, coeff_toPolynomial, eq_intCast,
    cast_scaledCoeff, mul_comm]

private theorem leadingCoeff_integral (p : Poly) : p.integral.leadingCoeff = p.scaledCoeff p.leading := by
  have hden : (p.commonDenominator : ℚ) ≠ 0 := Nat.cast_ne_zero.mpr p.commonDenominator_pos.ne'
  have degree : p.integral.natDegree = p.toPolynomial.natDegree := by
    rw [← Polynomial.natDegree_map_eq_of_injective (Int.castRingHom ℚ).injective_int, map_integral,
      Polynomial.natDegree_C_mul hden]
  rw [Polynomial.leadingCoeff, coeff_integral, degree, leading_eq_leadingCoeff, Polynomial.leadingCoeff,
    coeff_toPolynomial]

private theorem aeval_integral (h : p.eval q = 0) : Polynomial.aeval q p.integral = 0 := by
  rw [← Polynomial.eval_map_algebraMap]
  change (p.integral.map (Int.castRingHom ℚ)).eval q = 0
  rw [map_integral, Polynomial.eval_mul, eval_toPolynomial, h, mul_zero]

/-! ### Candidates -/

private theorem mem_candidates {numerators denominators : List Nat} {n d : Nat} (hn : n ∈ numerators)
    (hd : d ∈ denominators) (hq : q = mkRat n d ∨ q = -mkRat n d) :
    q ∈ candidates numerators denominators := by
  refine List.mem_flatMap.mpr ⟨n, hn, List.mem_flatMap.mpr ⟨d, hd, ?_⟩⟩
  rwa [List.mem_cons, List.mem_singleton]

private theorem mem_of_coefficientDivisors {n : Int} {ds : List Nat} {k : Int}
    (h : coefficientDivisors n = .ok ds) (hn : n ≠ 0) (hk : k ∣ n) : k.natAbs ∈ ds := by
  simp only [coefficientDivisors] at h
  split at h
  · rename_i found
    obtain rfl := Except.ok.inj h
    exact (Number.mem_divisors?_iff found (Int.natAbs_ne_zero.mpr hn)).mpr (Int.natAbs_dvd_natAbs.mpr hk)
  · cases h

private theorem mem_candidates_of_eval_eq_zero {numerators denominators : List Nat}
    (h0 : p.scaledCoeff (p.coeff 0) ≠ 0)
    (hn : coefficientDivisors (p.scaledCoeff (p.coeff 0)) = .ok numerators)
    (hd : coefficientDivisors (p.scaledCoeff p.leading) = .ok denominators) (hq : p.eval q = 0) :
    q ∈ candidates numerators denominators := by
  have root := aeval_integral hq
  have numerator := num_dvd_of_is_root root
  have denominator := den_dvd_of_is_root root
  rw [coeff_integral] at numerator
  rw [leadingCoeff_integral] at denominator
  have leading : p.scaledCoeff p.leading ≠ 0 := by
    rw [Ne, scaledCoeff_eq_zero_iff, leading_eq_leadingCoeff, Polynomial.leadingCoeff_eq_zero]
    intro hzero
    rw [Ne, scaledCoeff_eq_zero_iff, ← coeff_toPolynomial, hzero] at h0
    exact h0 rfl
  refine mem_candidates (mem_of_coefficientDivisors hn h0 numerator)
    (mem_of_coefficientDivisors hd leading denominator) ?_
  have size : |q| = mkRat (IsFractionRing.num ℤ q).natAbs (IsFractionRing.den ℤ q : ℤ).natAbs := by
    conv_lhs => rw [← IsFractionRing.mk'_num_den' ℤ q]
    rw [Rat.mkRat_eq_div, abs_div, Int.cast_natCast, Nat.cast_natAbs, Nat.cast_natAbs, Int.cast_abs,
      Int.cast_abs]
    rfl
  exact eq_or_eq_neg_of_abs_eq size

private theorem least?_spec {qs : List Rat} {m : Rat} (h : least? qs = some m) : m ∈ qs ∧ ∀ q ∈ qs, m ≤ q := by
  have least (qs : List Rat) (m : Rat) :
      qs.foldl (fun m q => if q < m then q else m) m ∈ m :: qs ∧
        ∀ q ∈ m :: qs, qs.foldl (fun m q => if q < m then q else m) m ≤ q := by
    induction qs generalizing m with
    | nil => exact ⟨List.mem_singleton_self m, fun q hq => (List.mem_singleton.mp hq).ge⟩
    | cons q qs ih =>
      rw [List.foldl_cons]
      split_ifs with less
      · obtain ⟨mem, below⟩ := ih q
        refine ⟨List.mem_cons_of_mem m mem, List.forall_mem_cons.mpr ⟨?_, below⟩⟩
        exact (below q List.mem_cons_self).trans less.le
      · obtain ⟨mem, below⟩ := ih m
        obtain ⟨hm, hqs⟩ := List.forall_mem_cons.mp below
        refine ⟨List.cons_subset_cons m (List.subset_cons_self q qs) mem, List.forall_mem_cons.mpr ⟨hm, ?_⟩⟩
        exact List.forall_mem_cons.mpr ⟨hm.trans (not_lt.mp less), hqs⟩
  cases qs with
  | nil => cases h
  | cons m qs =>
    rw [least?, Option.some.injEq] at h
    rw [← h]
    exact least qs m

private theorem least?_eq_none {qs : List Rat} (h : least? qs = none) : qs = [] := by
  cases qs with
  | nil => rfl
  | cons q qs => cases h

theorem eval_rationalRoot? (h : p.rationalRoot? = .ok (some r)) :
    p.eval r = 0 := by
  simp only [rationalRoot?] at h
  split at h
  · rename_i hconstant
    cases h
    rw [eval_zero]
    exact (scaledCoeff_eq_zero_iff p _).mp hconstant
  · obtain ⟨numerators, -, h⟩ := bind_eq_ok.mp h
    obtain ⟨denominators, -, h⟩ := bind_eq_ok.mp h
    have found := (least?_spec (Except.ok.inj h)).1
    exact of_decide_eq_true (List.mem_filter.mp found).2

theorem rationalRoot?_le (h : p.rationalRoot? = .ok (some r)) : r = 0 ∨ ∀ q, p.eval q = 0 → r ≤ q := by
  simp only [rationalRoot?] at h
  split at h
  · cases h
    exact .inl rfl
  · rename_i hconstant
    obtain ⟨numerators, hn, h⟩ := bind_eq_ok.mp h
    obtain ⟨denominators, hd, h⟩ := bind_eq_ok.mp h
    refine .inr fun q hq =>
      (least?_spec (Except.ok.inj h)).2 q (List.mem_filter.mpr ⟨?_, decide_eq_true hq⟩)
    exact mem_candidates_of_eval_eq_zero hconstant hn hd hq

theorem not_isRoot_of_rationalRoot? (h : p.rationalRoot? = .ok none) (q : Rat) :
    ¬ p.toPolynomial.IsRoot q := by
  intro hq
  rw [isRoot_toPolynomial] at hq
  simp only [rationalRoot?] at h
  split at h
  · cases h
  · rename_i hconstant
    obtain ⟨numerators, hn, h⟩ := bind_eq_ok.mp h
    obtain ⟨denominators, hd, h⟩ := bind_eq_ok.mp h
    have candidate := mem_candidates_of_eval_eq_zero hconstant hn hd hq
    have empty := least?_eq_none (Except.ok.inj h)
    exact List.not_mem_nil (empty ▸ List.mem_filter.mpr ⟨candidate, decide_eq_true hq⟩)

/-! ### When the search is made -/

private theorem coefficientDivisors_of_large {n : Int} (h : 10 ^ 10 < n.natAbs) :
    coefficientDivisors n = .error (.coefficientTooLarge n) := by
  rw [coefficientDivisors, Number.divisors?_eq_none_iff.mpr h]

private theorem eq_coefficientTooLarge {n : Int} {failure : Failure} (h : coefficientDivisors n = .error failure) :
    failure = .coefficientTooLarge n := by
  rw [coefficientDivisors] at h
  split at h
  · cases h
  · exact (Except.error.inj h).symm

private theorem exists_coefficientDivisors {n : Int} (h : n.natAbs ≤ 10 ^ 10) :
    ∃ ds, coefficientDivisors n = .ok ds := by
  have found : Number.divisors? n.natAbs ≠ none := mt Number.divisors?_eq_none_iff.mp (not_lt.mpr h)
  obtain ⟨ds, hds⟩ := Option.ne_none_iff_exists'.mp found
  exact ⟨ds, by rw [coefficientDivisors, hds]⟩

private theorem rationalRoot?_of_constant_eq_zero (h : p.scaledCoeff (p.coeff 0) = 0) :
    p.rationalRoot? = .ok (some 0) := by
  simp only [rationalRoot?, if_pos h]

private theorem rationalRoot?_of_large_constant (h : 10 ^ 10 < (p.scaledCoeff (p.coeff 0)).natAbs) :
    p.rationalRoot? = .error (.coefficientTooLarge (p.scaledCoeff (p.coeff 0))) := by
  have h0 : p.scaledCoeff (p.coeff 0) ≠ 0 := by omega
  simp only [rationalRoot?, if_neg h0, coefficientDivisors_of_large h]
  rfl

private theorem rationalRoot?_of_large_leading (h0 : p.scaledCoeff (p.coeff 0) ≠ 0)
    (hn : (p.scaledCoeff (p.coeff 0)).natAbs ≤ 10 ^ 10)
    (hd : 10 ^ 10 < (p.scaledCoeff p.leading).natAbs) :
    p.rationalRoot? = .error (.coefficientTooLarge (p.scaledCoeff p.leading)) := by
  obtain ⟨numerators, hnumerators⟩ := exists_coefficientDivisors hn
  simp only [rationalRoot?, if_neg h0, hnumerators, coefficientDivisors_of_large hd]
  rfl

private theorem exists_rationalRoot? (hn : (p.scaledCoeff (p.coeff 0)).natAbs ≤ 10 ^ 10)
    (hd : (p.scaledCoeff p.leading).natAbs ≤ 10 ^ 10) : ∃ answer, p.rationalRoot? = .ok answer := by
  obtain ⟨numerators, hnumerators⟩ := exists_coefficientDivisors hn
  obtain ⟨denominators, hdenominators⟩ := exists_coefficientDivisors hd
  by_cases h0 : p.scaledCoeff (p.coeff 0) = 0
  · exact ⟨_, rationalRoot?_of_constant_eq_zero h0⟩
  · simp only [rationalRoot?, if_neg h0, hnumerators, hdenominators]
    exact ⟨_, rfl⟩

theorem exists_of_rationalRoot?_eq_error {failure : Failure} (h : p.rationalRoot? = .error failure) :
    ∃ n, failure = .coefficientTooLarge n := by
  simp only [rationalRoot?] at h
  split at h
  · cases h
  · rcases bind_eq_error.mp h with h | ⟨numerators, -, h⟩
    · exact ⟨_, eq_coefficientTooLarge h⟩
    · rcases bind_eq_error.mp h with h | ⟨denominators, -, h⟩
      · exact ⟨_, eq_coefficientTooLarge h⟩
      · cases h

/-- If zero is no root, what the search answers is the least root. -/
private theorem isLeast_rationalRoot? (h0 : p.scaledCoeff (p.coeff 0) ≠ 0)
    (h : p.rationalRoot? = .ok (some r)) : IsLeast {q | p.toPolynomial.IsRoot q} r := by
  simp only [isRoot_toPolynomial]
  have root := eval_rationalRoot? h
  refine ⟨root, (rationalRoot?_le h).resolve_left ?_⟩
  rintro rfl
  rw [eval_zero] at root
  exact h0 ((scaledCoeff_eq_zero_iff p _).mpr root)

/-- The search is complete. Let `c` and `a` be the constant and the leading coefficient, made integers by
the least common multiple of all denominators. Zero is answered if `c` is zero. Otherwise the search is
refused if one of them is larger than `10 ^ 10`. If not, it answers the least rational root where there is
one, and nothing exactly where there is none. -/
theorem rationalRoot?_complete (p : Poly) : ∃ c a : ℤ,
    (c : ℚ) = p.coeff 0 * p.commonDenominator ∧ (a : ℚ) = p.leading * p.commonDenominator ∧
    (c = 0 → p.rationalRoot? = .ok (some 0)) ∧
    (c ≠ 0 → 10 ^ 10 < c.natAbs → p.rationalRoot? = .error (.coefficientTooLarge c)) ∧
    (c ≠ 0 → c.natAbs ≤ 10 ^ 10 → 10 ^ 10 < a.natAbs →
      p.rationalRoot? = .error (.coefficientTooLarge a)) ∧
    (c ≠ 0 → c.natAbs ≤ 10 ^ 10 → a.natAbs ≤ 10 ^ 10 →
      ((∃ q, p.toPolynomial.IsRoot q) →
        ∃ r, p.rationalRoot? = .ok (some r) ∧ IsLeast {q | p.toPolynomial.IsRoot q} r) ∧
      (p.rationalRoot? = .ok none ↔ ∀ q, ¬ p.toPolynomial.IsRoot q)) := by
  refine ⟨p.scaledCoeff (p.coeff 0), p.scaledCoeff p.leading, cast_scaledCoeff p 0, ?_,
    rationalRoot?_of_constant_eq_zero, fun _ => rationalRoot?_of_large_constant,
    rationalRoot?_of_large_leading, ?_⟩
  · rw [leading_eq_leadingCoeff, Polynomial.leadingCoeff, coeff_toPolynomial, cast_scaledCoeff]
  · intro h0 hn hd
    obtain ⟨answer, h⟩ := exists_rationalRoot? hn hd
    cases answer with
    | none =>
      have noRoot := not_isRoot_of_rationalRoot? h
      exact ⟨fun ⟨q, hq⟩ => absurd hq (noRoot q), iff_of_true h noRoot⟩
    | some r =>
      have least := isLeast_rationalRoot? h0 h
      refine ⟨fun _ => ⟨r, h, least⟩, iff_of_false ?_ fun noRoot => noRoot r least.1⟩
      rw [h]
      exact fun same => Option.some_ne_none r (Except.ok.inj same)

example : (ofCoeffs [-9 / 2, 6, 3 / 2, 6, 6]).rationalRoot?.toOption = some (some (-3 / 2)) := by
  decide +kernel

end Poly

end Tutor
