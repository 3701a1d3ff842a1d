import Tutor.Proofs.Poly.OfExpr

/-!
What a polynomial stores: the coefficients of a polynomial over the rationals that are not zero, each once,
the highest power first. Polynomials of a degree that is a word are stored, and every operation stores the
result of the operation of the ring of polynomials in this way, also where terms cancel on the way; products
and powers do if the degree of the result is a word. So nothing stored is ever zero, and polynomials are
equal exactly if their coefficients are.
-/

set_option autoImplicit false
set_option relaxedAutoImplicit false

open scoped Polynomial

namespace Tutor.Poly

variable {p q : Poly} {f g : ℚ[X]}

/-- A polynomial stores the coefficients of `f` that are not zero, each once, highest power first. -/
structure Represents (p : Poly) (f : ℚ[X]) : Prop where
  descending : p.terms.Pairwise fun s t => t.1 < s.1
  mem_iff : ∀ n c, (n, c) ∈ p.terms ↔ c ≠ 0 ∧ f.coeff n = c

private theorem mem_terms_iff {ts : List Term} (h : Canonical ts) (n : Nat) (c : Rat) :
    (n, c) ∈ ts ↔ c ≠ 0 ∧ (sumOfTerms ts).coeff n = c := by
  induction ts with
  | nil =>
    rw [sumOfTerms_nil, Polynomial.coeff_zero]
    exact iff_of_false List.not_mem_nil fun hc => hc.1 hc.2.symm
  | cons t ts ih =>
    obtain ⟨k, e⟩ := t
    obtain ⟨he, below, rest⟩ := canonical_cons.mp h
    rw [List.mem_cons, Prod.mk.injEq, ih rest, sumOfTerms_cons, Polynomial.coeff_add,
      Polynomial.coeff_monomial]
    by_cases hk : k = n
    · rw [if_pos hk, coeff_sumOfTerms_of_below (hk ▸ below), add_zero]
      grind
    · rw [if_neg hk, zero_add]
      grind

private theorem represents_iff : p.Represents f ↔ p.toPolynomial = f := by
  constructor
  · intro h
    ext n
    have same (c : Rat) (hc : c ≠ 0) : p.toPolynomial.coeff n = c ↔ f.coeff n = c := by
      have left := mem_terms_iff p.canonical n c
      have right := h.mem_iff n c
      rw [and_iff_right hc] at left right
      exact left.symm.trans right
    by_cases h0 : f.coeff n = 0
    · by_contra different
      rw [h0] at different
      exact different (((same _ different).mp rfl).symm.trans h0)
    · exact (same _ h0).mpr rfl
  · rintro rfl
    exact ⟨p.canonical.1, mem_terms_iff p.canonical⟩

private theorem represents_toPolynomial (p : Poly) : p.Represents p.toPolynomial := represents_iff.mpr rfl

private theorem existsUnique_represented (p : Poly) : ∃! f, p.Represents f :=
  ⟨p.toPolynomial, represents_toPolynomial p, fun _ h => (represents_iff.mp h).symm⟩

private theorem exists_toPolynomial (h : f.natDegree < UInt64.size) : ∃ p : Poly, p.toPolynomial = f := by
  have partialSum (S : Finset ℕ) (hS : ∀ n ∈ S, n < UInt64.size) (c : ℕ → ℚ) :
      ∃ p : Poly, p.toPolynomial = ∑ n ∈ S, Polynomial.monomial n (c n) := by
    induction S using Finset.induction_on with
    | empty => exact ⟨0, rfl⟩
    | insert n S hn ih =>
      obtain ⟨p, hp⟩ := ih fun m hm => hS m (Finset.mem_insert_of_mem hm)
      refine ⟨monomial n (c n) + p, ?_⟩
      rw [toPolynomial_add, toPolynomial_monomial (hS n (Finset.mem_insert_self n S)), hp,
        Finset.sum_insert hn]
  obtain ⟨p, hp⟩ := partialSum f.support
    (fun n hn => (Polynomial.le_natDegree_of_mem_supp n hn).trans_lt h) f.coeff
  exact ⟨p, hp.trans f.sum_monomial_eq⟩

private theorem existsUnique_represents_iff : (∃! p : Poly, p.Represents f) ↔ f.natDegree < UInt64.size := by
  constructor
  · rintro ⟨p, hp, -⟩
    rw [← represents_iff.mp hp]
    exact natDegree_toPolynomial_lt p
  · intro h
    obtain ⟨p, rfl⟩ := exists_toPolynomial h
    exact ⟨p, represents_toPolynomial p, fun _ h => toPolynomial_injective (represents_iff.mp h)⟩

/-! ### Constructors -/

private theorem represents_const (c : Rat) : (const c).Represents (Polynomial.C c) :=
  represents_iff.mpr (toPolynomial_const c)

private theorem represents_x : x.Represents Polynomial.X := represents_iff.mpr toPolynomial_x

/-- A list of coefficients stores the polynomial with these coefficients. The induction takes the lowest
coefficient off. -/
private theorem represents_ofCoeffs {cs : List Rat} (h : f.natDegree < UInt64.size)
    (hf : ∀ n, f.coeff n = cs.getD n 0) : (ofCoeffs cs).Represents f := by
  rw [represents_iff]
  induction cs generalizing f with
  | nil => exact (Polynomial.ext hf).symm
  | cons c cs ih =>
    have degree := Polynomial.natDegree_divX_eq_natDegree_tsub_one (p := f)
    have size : 1 < UInt64.size := by decide
    have rest : (ofCoeffs cs).toPolynomial = f.divX := by
      refine ih (by omega) fun n => ?_
      rw [Polynomial.coeff_divX, hf, List.getD_cons_succ]
    have step : (ofCoeffs (c :: cs)).toPolynomial =
        Polynomial.C c + (ofCoeffs cs).toPolynomial * Polynomial.X := by
      rw [ofCoeffs, List.foldr_cons, toPolynomial_add, ← ofCoeffs, toPolynomial_monomial (by decide),
        toPolynomial_shift (by rw [rest]; omega), Polynomial.monomial_one_one_eq_X]
      rfl
    have lowest : f.coeff 0 = c := hf 0
    rw [step, rest, ← lowest, add_comm, Polynomial.divX_mul_X_add]

/-! ### Quotients, remainders and greatest common divisors -/

private theorem toPolynomial_divMod (p d : Poly) :
    (divMod p d).1.toPolynomial = p.toPolynomial / d.toPolynomial ∧
      (divMod p d).2.toPolynomial = p.toPolynomial % d.toPolynomial := by
  have division := divMod_eq p d
  by_cases hd : d.toPolynomial = 0
  · have none : divMod p d = (0, p) := by rw [divMod, dif_pos (.inl (toPolynomial_eq_zero_iff.mp hd))]
    rw [none, hd, EuclideanDomain.div_zero, EuclideanDomain.mod_zero]
    exact ⟨rfl, rfl⟩
  · have lower := degree_lt_of_bound_lt (bound_divMod_snd_lt p (mt toPolynomial_eq_zero_iff.mpr hd))
    have remainder : (divMod p d).2.toPolynomial = p.toPolynomial % d.toPolynomial := by
      rw [division, Polynomial.add_mod, EuclideanDomain.mod_eq_zero.mpr (dvd_mul_left _ _), zero_add,
        (Polynomial.mod_eq_self_iff hd).mpr lower]
    refine ⟨?_, remainder⟩
    have quotient := EuclideanDomain.div_add_mod p.toPolynomial d.toPolynomial
    rw [← remainder] at quotient
    apply mul_right_cancel₀ hd
    linear_combination -division - quotient

private theorem toPolynomial_monic_eq_normalize (p : Poly) : p.monic.toPolynomial = normalize p.toPolynomial := by
  rw [toPolynomial_monic]
  by_cases hp : p.toPolynomial = 0
  · rw [hp, zero_mul, normalize_zero]
  · rw [normalize_apply, Polynomial.coe_normUnit_of_ne_zero hp]

private theorem toPolynomial_gcd (a b : Poly) :
    (gcd a b).toPolynomial = normalize (EuclideanDomain.gcd a.toPolynomial b.toPolynomial) := by
  have forth : (gcd a b).toPolynomial ∣ EuclideanDomain.gcd a.toPolynomial b.toPolynomial :=
    EuclideanDomain.dvd_gcd (gcd_dvd_left a b) (gcd_dvd_right a b)
  have back : EuclideanDomain.gcd a.toPolynomial b.toPolynomial ∣ (gcd a b).toPolynomial :=
    (dvd_gcd_iff a b _).mpr ⟨EuclideanDomain.gcd_dvd_left _ _, EuclideanDomain.gcd_dvd_right _ _⟩
  rw [← normalize_eq_normalize forth back]
  by_cases h : a.toPolynomial = 0 ∧ b.toPolynomial = 0
  · have zero : (gcd a b).toPolynomial = 0 := by
      rw [← zero_dvd_iff, dvd_gcd_iff, zero_dvd_iff, zero_dvd_iff]
      exact h
    rw [zero, normalize_zero]
  · exact (monic_gcd (not_and_or.mp h)).normalize_eq_self.symm

/-! ### Operations -/

namespace Represents

theorem add (hp : p.Represents f) (hq : q.Represents g) : (p + q).Represents (f + g) := by
  rw [represents_iff] at *
  rw [toPolynomial_add, hp, hq]

theorem sub (hp : p.Represents f) (hq : q.Represents g) : (p - q).Represents (f - g) := by
  rw [represents_iff] at *
  rw [toPolynomial_sub, hp, hq]

theorem mul (hp : p.Represents f) (hq : q.Represents g)
    (h : f.natDegree + g.natDegree < UInt64.size) : (p * q).Represents (f * g) := by
  rw [represents_iff] at *
  rw [← hp, ← hq] at h ⊢
  exact toPolynomial_mul h

theorem neg (hp : p.Represents f) : (-p).Represents (-f) := by
  rw [represents_iff] at *
  rw [toPolynomial_neg, hp]

theorem power {k : Nat} (hp : p.Represents f) (h : k * f.natDegree < UInt64.size) :
    (p.power k).Represents (f ^ k) := by
  rw [represents_iff] at *
  rw [← hp] at h ⊢
  exact toPolynomial_power h

theorem scale (hp : p.Represents f) (c : Rat) : (p.scale c).Represents (Polynomial.C c * f) := by
  rw [represents_iff] at *
  rw [toPolynomial_scale, hp, mul_comm]

theorem derivative (hp : p.Represents f) : p.derivative.Represents (Polynomial.derivative f) := by
  rw [represents_iff] at *
  rw [toPolynomial_derivative, hp]

theorem monic (hp : p.Represents f) : p.monic.Represents (normalize f) := by
  rw [represents_iff] at *
  rw [toPolynomial_monic_eq_normalize, hp]

theorem divMod (hp : p.Represents f) (hq : q.Represents g) :
    (divMod p q).1.Represents (f / g) ∧ (divMod p q).2.Represents (f % g) := by
  simp only [represents_iff] at *
  rw [← hp, ← hq]
  exact toPolynomial_divMod p q

theorem gcd (hp : p.Represents f) (hq : q.Represents g) :
    (gcd p q).Represents (normalize (EuclideanDomain.gcd f g)) := by
  rw [represents_iff] at *
  rw [toPolynomial_gcd, hp, hq]

theorem coeff (hp : p.Represents f) (n : Nat) : p.coeff n = f.coeff n := by
  rw [← coeff_toPolynomial, represents_iff.mp hp]

theorem eval (hp : p.Represents f) (a : Rat) : p.eval a = f.eval a := by
  rw [← eval_toPolynomial, represents_iff.mp hp]

end Represents

/-! ### Values and equality -/

private theorem eval_homomorphism (a : Rat) : (0 : Poly).eval a = 0 ∧ (1 : Poly).eval a = 1 ∧
    (∀ p q : Poly, (p + q).eval a = p.eval a + q.eval a) ∧
    ∀ p q : Poly, p.productFits q = true → (p * q).eval a = p.eval a * q.eval a := by
  simp only [← eval_toPolynomial, toPolynomial_zero, toPolynomial_one, toPolynomial_add,
    Polynomial.eval_zero, Polynomial.eval_one, Polynomial.eval_add, implies_true, true_and]
  intro p q fits
  rw [toPolynomial_mul_of_fits fits, Polynomial.eval_mul]

private theorem eq_iff_coeff (p q : Poly) : p = q ↔ ∀ n, p.coeff n = q.coeff n := by
  simp only [← toPolynomial_injective.eq_iff, Polynomial.ext_iff, coeff_toPolynomial]

/-- Under the second power the partial sums of a product cancel and come back. -/
example : (ofCoeffs [1, 1, 1] * ofCoeffs [1, -1, 1]).terms = [(4, 1), (2, 1), (0, 1)] := by
  decide +kernel

end Tutor.Poly
