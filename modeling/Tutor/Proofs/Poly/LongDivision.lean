import Tutor.Proofs.Poly.Division

/-!
Long division, round by round. A round takes the multiple of the divisor with the highest term of the
remainder away from the remainder, and adds the factor to the quotient. So the dividend stays the quotient
times the divisor plus the remainder, and the remainder loses its highest power; the rounds end, and where
they end is the only quotient that leaves a remainder of lower degree than the divisor.
-/

set_option autoImplicit false
set_option relaxedAutoImplicit false

namespace Tutor.Poly

variable {a d q r : Poly}

/-- A polynomial is zero, or its degree is lower than that of another one. -/
def LowerThan (r d : Poly) : Prop :=
  r = 0 ∨ ∃ m n, r.degree? = some m ∧ d.degree? = some n ∧ m < n

private theorem eq_zero_iff_bound : d = 0 ↔ d.bound = 0 := by
  rw [eq_zero_iff, toPolynomial_eq_zero_iff]

private theorem degree?_of_ne_zero (hd : d ≠ 0) : ∃ n, d.degree? = some n ∧ d.bound = n + 1 := by
  have bound := mt eq_zero_iff_bound.mpr hd
  unfold Poly.bound at bound ⊢
  cases degree : d.degree? with
  | none => rw [degree] at bound; exact absurd rfl bound
  | some n => exact ⟨n, rfl, rfl⟩

private theorem lowerThan_iff (hd : d ≠ 0) : r.LowerThan d ↔ r.bound < d.bound := by
  obtain ⟨n, degree, bound⟩ := degree?_of_ne_zero hd
  by_cases hr : r = 0
  · have none := eq_zero_iff_bound.mp hr
    exact iff_of_true (.inl hr) (by omega)
  · obtain ⟨m, degree', bound'⟩ := degree?_of_ne_zero hr
    rw [LowerThan, or_iff_right hr, degree, degree', bound, bound']
    constructor
    · rintro ⟨i, j, hi, hj, lower⟩
      obtain rfl := Option.some.inj hi
      obtain rfl := Option.some.inj hj
      omega
    · intro lower
      exact ⟨m, n, rfl, rfl, by omega⟩

/-! ### Rounds -/

/-- What a round adds to the quotient: the highest term of the remainder over that of the divisor. -/
def quotientTerm (r d : Poly) : Poly := monomial (r.bound - d.bound) (r.leading / d.leading)

private theorem toPolynomial_quotientTerm_mul (r d : Poly) :
    (quotientTerm r d * d).toPolynomial = (quotientTerm r d).toPolynomial * d.toPolynomial := by
  have remainder := r.bound_le_size
  have divisor := d.bound_le_size
  have word := natDegree_toPolynomial_lt (quotientTerm r d)
  have term : (quotientTerm r d).bound ≤ r.bound - d.bound + 1 := bound_monomial_le _ _
  apply toPolynomial_mul
  rw [natDegree_toPolynomial] at word ⊢
  rw [natDegree_toPolynomial]
  omega

def divisionRound (d : Poly) (state : Poly × Poly) : Poly × Poly :=
  (state.1 + quotientTerm state.2 d, state.2 - quotientTerm state.2 d * d)

/-- Division ends where the remainder is lower than the divisor; division by zero has no rounds. -/
def DivisionEnded (d : Poly) (state : Poly × Poly) : Prop := d = 0 ∨ state.2.LowerThan d

private theorem division_round {s : Poly × Poly}
    (h : a.toPolynomial = s.1.toPolynomial * d.toPolynomial + s.2.toPolynomial) :
    a.toPolynomial = (divisionRound d s).1.toPolynomial * d.toPolynomial +
      (divisionRound d s).2.toPolynomial := by
  rw [h, divisionRound, toPolynomial_add, toPolynomial_sub, toPolynomial_quotientTerm_mul]
  ring

private theorem bound_divisionRound_lt {s : Poly × Poly} (h : ¬ DivisionEnded d s) :
    (divisionRound d s).2.bound < s.2.bound := by
  obtain ⟨hd, running⟩ := not_or.mp h
  rw [lowerThan_iff hd, not_lt] at running
  have positive : d.bound ≠ 0 := mt eq_zero_iff_bound.mpr hd
  have cancelled : (divisionRound d s).2 = reduce s.2 d := by
    apply toPolynomial_injective
    rw [divisionRound, toPolynomial_sub, toPolynomial_quotientTerm_mul, quotientTerm,
      toPolynomial_quotientMonomial positive running, toPolynomial_reduce positive running]
  rw [cancelled]
  exact bound_reduce_lt positive running

private theorem exists_divisionEnded (d : Poly) (s : Poly × Poly) : ∃ n ≤ s.2.bound,
    (∀ k < n, ¬ DivisionEnded d ((divisionRound d)^[k] s)) ∧
      DivisionEnded d ((divisionRound d)^[n] s) := by
  induction hb : s.2.bound using Nat.strongRecOn generalizing s with
  | ind b ih =>
    by_cases ended : DivisionEnded d s
    · exact ⟨0, Nat.zero_le b, fun k hk => absurd hk (Nat.not_lt_zero k), ended⟩
    · have lower := bound_divisionRound_lt ended
      obtain ⟨n, hn, running, stops⟩ := ih _ (hb ▸ lower) (divisionRound d s) rfl
      refine ⟨n + 1, by omega, ?_, stops⟩
      intro k hk
      cases k with
      | zero => exact ended
      | succ k => exact running k (by omega)

private theorem division_rounds (a d : Poly) (n : Nat) :
    a.toPolynomial = ((divisionRound d)^[n] (0, a)).1.toPolynomial * d.toPolynomial +
      ((divisionRound d)^[n] (0, a)).2.toPolynomial := by
  induction n with
  | zero => rw [Function.iterate_zero, id, toPolynomial_zero, zero_mul, zero_add]
  | succ n ih =>
    rw [Function.iterate_succ_apply']
    exact division_round ih

private theorem divMod_zero (a : Poly) : divMod a 0 = (0, a) := by
  rw [divMod, dif_pos (.inl bound_zero)]

/-- A quotient that leaves a remainder of lower degree than the divisor is the one of the division. -/
private theorem eq_divMod (hd : d ≠ 0)
    (h : a.toPolynomial = q.toPolynomial * d.toPolynomial + r.toPolynomial) (lower : r.LowerThan d) :
    (q, r) = divMod a d :=
  (eq_of_division ((lowerThan_iff hd).mp lower) h).symm

private theorem divMod_eq_of_ended {n : Nat}
    (running : ∀ k < n, ¬ DivisionEnded d ((divisionRound d)^[k] (0, a)))
    (ended : DivisionEnded d ((divisionRound d)^[n] (0, a))) :
    divMod a d = (divisionRound d)^[n] (0, a) := by
  by_cases hd : d = 0
  · obtain rfl : n = 0 := by
      by_contra h0
      exact running 0 (Nat.pos_of_ne_zero h0) (.inl hd)
    rw [hd]
    exact divMod_zero a
  · exact (eq_divMod hd (division_rounds a d n) (ended.resolve_left hd)).symm

/-! ### Exact division -/

private theorem divExact?_eq_some : a.divExact? d = some q ↔ (divMod a d).2 = 0 ∧ (divMod a d).1 = q := by
  simp only [divExact?, Option.ite_none_right_eq_some, Option.some.injEq, isZero_iff, eq_zero_iff]

private theorem eq_mul_of_divExact? (h : a.divExact? d = some q) :
    a.toPolynomial = q.toPolynomial * d.toPolynomial := by
  obtain ⟨rest, rfl⟩ := divExact?_eq_some.mp h
  have division := divMod_eq a d
  rwa [rest, toPolynomial_zero, add_zero] at division

private theorem exists_divExact?_iff_dvd :
    (∃ q, a.divExact? d = some q) ↔ d.toPolynomial ∣ a.toPolynomial := by
  constructor
  · rintro ⟨q, hq⟩
    rw [eq_mul_of_divExact? hq]
    exact dvd_mul_left _ _
  · intro h
    by_cases hd : d = 0
    · have none : a = 0 := by
        rw [hd, toPolynomial_zero, zero_dvd_iff] at h
        exact eq_zero_iff.mpr h
      exact ⟨0, divExact?_eq_some.mpr (by rw [hd, divMod_zero]; exact ⟨none, rfl⟩)⟩
    · exact exists_divExact? (mt eq_zero_iff_bound.mpr hd) h

/-- Division with remainder. The rounds end and give the result; the dividend is the quotient times the
divisor plus the remainder. By zero the quotient is zero and the dividend is left; by another divisor the
remainder is zero or of lower degree, and no other quotient leaves such a remainder. Exact division answers
exactly if the divisor divides the dividend, with the quotient. -/
theorem long_division (a d : Poly) :
    (∃ n ≤ a.bound, (∀ k < n, ¬ DivisionEnded d ((divisionRound d)^[k] (0, a))) ∧
      DivisionEnded d ((divisionRound d)^[n] (0, a)) ∧ divMod a d = (divisionRound d)^[n] (0, a)) ∧
    a.toPolynomial = (divMod a d).1.toPolynomial * d.toPolynomial + (divMod a d).2.toPolynomial ∧
    (d = 0 → divMod a d = (0, a)) ∧
    (d ≠ 0 → (divMod a d).2.LowerThan d ∧
      ∀ q r : Poly, a.toPolynomial = q.toPolynomial * d.toPolynomial + r.toPolynomial →
        r.LowerThan d → (q, r) = divMod a d) ∧
    ((∃ q, a.divExact? d = some q) ↔ d.toPolynomial ∣ a.toPolynomial) ∧
    ∀ q, a.divExact? d = some q →
      q = (divMod a d).1 ∧ a.toPolynomial = q.toPolynomial * d.toPolynomial := by
  obtain ⟨n, hn, running, ended⟩ := exists_divisionEnded d (0, a)
  refine ⟨⟨n, hn, running, ended, divMod_eq_of_ended running ended⟩, divMod_eq a d, ?_, ?_,
    exists_divExact?_iff_dvd, ?_⟩
  · rintro rfl
    exact divMod_zero a
  · intro hd
    have lower := bound_divMod_snd_lt a (mt eq_zero_iff_bound.mpr hd)
    exact ⟨(lowerThan_iff hd).mpr lower, fun q r => eq_divMod hd⟩
  · intro q hq
    exact ⟨(divExact?_eq_some.mp hq).2.symm, eq_mul_of_divExact? hq⟩

/-- Gaps in both polynomials: `x⁵ + 1` divided by `2 x² - 1`. -/
example : divMod (ofCoeffs [1, 0, 0, 0, 0, 1]) (ofCoeffs [-1, 0, 2]) =
    (ofCoeffs [0, 1 / 4, 0, 1 / 2], ofCoeffs [1, 1 / 4]) := by decide +kernel

end Tutor.Poly
