import Tutor.Proofs.RationalFunction.Values

/-!
Lowest terms are a normal form. A quotient of two polynomials has exactly one form in lowest terms, so two
quotients are brought to the same form exactly if they agree across. Only a divisor that is zero has no
quotient, and whatever is brought to lowest terms or read from an expression is in lowest terms.
-/

set_option autoImplicit false
set_option relaxedAutoImplicit false

namespace Tutor

namespace RationalFunction

variable {f g : RationalFunction} {a b c d n : Poly}

private theorem Reduced.denom_eq_one (hf : f.Reduced) (h0 : f.numer = 0) : f.denom = 1 := by
  have coprime := hf.coprime
  rw [h0, Poly.toPolynomial_zero, isCoprime_zero_left] at coprime
  apply Poly.toPolynomial_injective
  rw [Poly.toPolynomial_one]
  exact hf.monic.eq_one_of_isUnit coprime

private theorem ofQuotient?_eq_none_iff : ofQuotient? n d = none ↔ d = 0 := by
  rw [Poly.eq_zero_iff]
  constructor
  · intro none
    by_contra hd
    obtain ⟨f, hf⟩ := exists_ofQuotient? hd n
    rw [none] at hf
    cases hf
  · intro hd
    exact if_pos (Poly.isZero_iff.mpr hd)

theorem ofQuotient?_eq_some_iff (hd : d ≠ 0) :
    ofQuotient? n d = some f ↔ f.Reduced ∧
      f.numer.toPolynomial * d.toPolynomial = n.toPolynomial * f.denom.toPolynomial := by
  have nonzero := mt Poly.eq_zero_iff.mpr hd
  constructor
  · intro hf
    exact (ofQuotient?_spec hf).2
  · rintro ⟨reduced, cross⟩
    obtain ⟨g, hg⟩ := exists_ofQuotient? nonzero n
    obtain ⟨-, reduced', cross'⟩ := ofQuotient?_spec hg
    have agree : f.numer.toPolynomial * g.denom.toPolynomial =
        g.numer.toPolynomial * f.denom.toPolynomial := by
      apply mul_right_cancel₀ nonzero
      linear_combination g.denom.toPolynomial * cross - f.denom.toPolynomial * cross'
    rw [hg, reduced.eq_of_cross reduced' agree]

private theorem eq_iff_of_ofQuotient? (hf : ofQuotient? a b = some f) (hg : ofQuotient? c d = some g) :
    f = g ↔ a.toPolynomial * d.toPolynomial = c.toPolynomial * b.toPolynomial := by
  obtain ⟨hb, reduced, cross⟩ := ofQuotient?_spec hf
  obtain ⟨hd, -, cross'⟩ := ofQuotient?_spec hg
  constructor
  · rintro rfl
    apply mul_right_cancel₀ reduced.monic.ne_zero
    linear_combination b.toPolynomial * cross' - d.toPolynomial * cross
  · intro agree
    have same : ofQuotient? c d = some f := by
      refine (ofQuotient?_eq_some_iff (mt Poly.eq_zero_iff.mp hd)).mpr ⟨reduced, ?_⟩
      apply mul_right_cancel₀ hb
      linear_combination d.toPolynomial * cross + f.denom.toPolynomial * agree
    exact Option.some.inj (same.symm.trans hg)

/-- Rational functions are canonical. Two quotients with divisors other than zero have forms in lowest
terms, and these are equal exactly if the quotients agree across. Every such form, and every function of an
expression, has a monic denominator without a factor in common with the numerator, which is one for the
numerator zero; and the form in lowest terms agrees with the quotient. Only a divisor that is zero has no
quotient. -/
theorem ofQuotient?_canonical :
    (∀ a b c d : Poly, b ≠ 0 → d ≠ 0 →
      ∃ f g, ofQuotient? a b = some f ∧ ofQuotient? c d = some g ∧
        (f = g ↔ a.toPolynomial * d.toPolynomial = c.toPolynomial * b.toPolynomial)) ∧
    (∀ n d f, ofQuotient? n d = some f →
      f.Reduced ∧ (f.numer = 0 → f.denom = 1) ∧
        f.numer.toPolynomial * d.toPolynomial = n.toPolynomial * f.denom.toPolynomial) ∧
    (∀ v e f, ofExpr? v e = some f → f.Reduced ∧ (f.numer = 0 → f.denom = 1)) ∧
    ∀ n d, ofQuotient? n d = none ↔ d = 0 := by
  refine ⟨?_, ?_, ?_, fun n d => ofQuotient?_eq_none_iff⟩
  · intro a b c d hb hd
    obtain ⟨f, hf⟩ := exists_ofQuotient? (mt Poly.eq_zero_iff.mpr hb) a
    obtain ⟨g, hg⟩ := exists_ofQuotient? (mt Poly.eq_zero_iff.mpr hd) c
    exact ⟨f, g, hf, hg, eq_iff_of_ofQuotient? hf hg⟩
  · intro n d f hf
    obtain ⟨-, reduced, cross⟩ := ofQuotient?_spec hf
    exact ⟨reduced, reduced.denom_eq_one, cross⟩
  · intro v e f hf
    have reduced := reduced_of_ofExpr? hf
    exact ⟨reduced, reduced.denom_eq_one⟩

end RationalFunction

end Tutor
