import Tutor.Proofs.RationalFunction
import Tutor.Proofs.Value.Exact

/-!
Values of rational functions. At a rational point where an expression has an exact value, the rational
function of the expression has it too. All but finitely many points are no poles, and a function in
lowest terms is told by its values at all but finitely many points.
-/

set_option autoImplicit false
set_option relaxedAutoImplicit false

namespace Tutor

open Filter

/-! ### Zeros of polynomials -/

section Zeros

open scoped Polynomial

variable {p q : ℚ[X]}

private theorem eventually_aeval_ne_zero (hp : p ≠ 0) : ∀ᶠ t : ℝ in cofinite, Polynomial.aeval t p ≠ 0 := by
  refine (p.rootSet_finite ℝ).subset fun t ht => ?_
  rw [Polynomial.mem_rootSet_of_ne hp]
  exact not_not.mp ht

theorem eq_of_eventually_aeval
    (h : ∀ᶠ t : ℝ in cofinite, Polynomial.aeval t p = Polynomial.aeval t q) : p = q := by
  by_contra different
  obtain ⟨t, nonzero, same⟩ := ((eventually_aeval_ne_zero (sub_ne_zero_of_ne different)).and h).exists
  apply nonzero
  rw [map_sub, same, sub_self]

private theorem Poly.eventually_valueAt_ne_zero {p : Poly} (hp : p.toPolynomial ≠ 0) :
    ∀ᶠ t in cofinite, p.valueAt t ≠ 0 := by
  filter_upwards [eventually_aeval_ne_zero hp] with t ht
  rwa [← Poly.aeval_toPolynomial]

end Zeros

namespace RationalFunction

variable {f g h : RationalFunction} {n d : Poly} {t x : ℝ} {k : Int}

/-! ### Values at all but finitely many points -/

noncomputable def valueAt (f : RationalFunction) (t : ℝ) : ℝ := f.numer.valueAt t / f.denom.valueAt t

theorem HasValue.valueAt_eq (hf : f.HasValue t x) : f.valueAt t = x := by
  rw [valueAt, hf.value, mul_div_cancel_right₀ _ hf.denom_ne_zero]

private theorem hasValue_valueAt (h0 : f.denom.valueAt t ≠ 0) : f.HasValue t (f.valueAt t) :=
  ⟨h0, (div_mul_cancel₀ _ h0).symm⟩

theorem Reduced.eventually_hasValue (hf : f.Reduced) : ∀ᶠ t in cofinite, f.HasValue t (f.valueAt t) := by
  filter_upwards [Poly.eventually_valueAt_ne_zero hf.monic.ne_zero] with t h0
  exact hasValue_valueAt h0

theorem Reduced.eventually_ne_zero (hf : f.Reduced) (h0 : f.numer.toPolynomial ≠ 0) :
    ∀ᶠ t in cofinite, f.valueAt t ≠ 0 := by
  filter_upwards [Poly.eventually_valueAt_ne_zero hf.monic.ne_zero,
    Poly.eventually_valueAt_ne_zero h0] with t denom numer
  exact div_ne_zero numer denom

theorem Reduced.eq_of_cross (hf : f.Reduced) (hg : g.Reduced)
    (cross : f.numer.toPolynomial * g.denom.toPolynomial =
      g.numer.toPolynomial * f.denom.toPolynomial) : f = g := by
  have divides : f.denom.toPolynomial ∣ g.denom.toPolynomial :=
    hf.coprime.symm.dvd_of_dvd_mul_left (Dvd.intro_left _ cross.symm)
  have divides' : g.denom.toPolynomial ∣ f.denom.toPolynomial :=
    hg.coprime.symm.dvd_of_dvd_mul_left (Dvd.intro_left _ cross)
  have denom := Polynomial.eq_of_monic_of_associated hf.monic hg.monic
    (associated_of_dvd_dvd divides divides')
  rw [denom] at cross
  have numer := mul_right_cancel₀ hg.monic.ne_zero cross
  obtain ⟨fn, fd⟩ := f
  obtain rfl := Poly.toPolynomial_injective numer
  obtain rfl := Poly.toPolynomial_injective denom
  rfl

theorem Reduced.eq_of_eventually (hf : f.Reduced) (hg : g.Reduced)
    (same : ∀ᶠ t in cofinite, f.valueAt t = g.valueAt t) : f = g := by
  refine hf.eq_of_cross hg (eq_of_eventually_aeval ?_)
  filter_upwards [hf.eventually_hasValue, hg.eventually_hasValue, same] with t hft hgt hsame
  simp only [map_mul, Poly.aeval_toPolynomial, hft.value, hgt.value, hsame]
  ring

/-! ### Values of the operations -/

theorem Reduced.eventually_add (hf : f.Reduced) (hg : g.Reduced) (fits : f.sumFits g = true)
    (hh : f.add? g = some h) : ∀ᶠ t in cofinite, h.valueAt t = f.valueAt t + g.valueAt t := by
  filter_upwards [hf.eventually_hasValue, hg.eventually_hasValue] with t hft hgt
  exact (hft.add hgt fits hh).valueAt_eq

theorem Reduced.eventually_sub (hf : f.Reduced) (hg : g.Reduced) (fits : f.sumFits g.neg = true)
    (hh : f.add? g.neg = some h) : ∀ᶠ t in cofinite, h.valueAt t = f.valueAt t - g.valueAt t := by
  filter_upwards [hf.eventually_hasValue, hg.eventually_hasValue] with t hft hgt
  rw [(hft.add hgt.neg fits hh).valueAt_eq, sub_eq_add_neg]

theorem Reduced.eventually_mul (hf : f.Reduced) (hg : g.Reduced) (fits : f.productFits g = true)
    (hh : f.mul? g = some h) : ∀ᶠ t in cofinite, h.valueAt t = f.valueAt t * g.valueAt t := by
  filter_upwards [hf.eventually_hasValue, hg.eventually_hasValue] with t hft hgt
  exact (hft.mul hgt fits hh).valueAt_eq

theorem numer_ne_zero_of_inverse? (hh : f.inverse? = some h) : f.numer.toPolynomial ≠ 0 :=
  (ofQuotient?_spec hh).1

theorem Reduced.eventually_div {i : RationalFunction} (hf : f.Reduced) (hg : g.Reduced)
    (hi : g.inverse? = some i) (fits : f.productFits i = true) (hh : f.mul? i = some h) :
    ∀ᶠ t in cofinite, g.valueAt t ≠ 0 ∧ h.valueAt t = f.valueAt t / g.valueAt t := by
  filter_upwards [hf.eventually_hasValue, hg.eventually_hasValue,
    hg.eventually_ne_zero (numer_ne_zero_of_inverse? hi)] with t hft hgt h0
  rw [(hft.mul (hgt.inverse h0 hi) fits hh).valueAt_eq, div_eq_mul_inv]
  exact ⟨h0, rfl⟩

theorem valueAt_neg (f : RationalFunction) (t : ℝ) : f.neg.valueAt t = -f.valueAt t := by
  rw [valueAt, neg, Poly.valueAt_neg, neg_div, valueAt]

theorem numer_ne_zero_of_power? (fits : f.powerFits k = true) (hh : f.power? k = some h) :
    0 ≤ k ∨ f.numer.toPolynomial ≠ 0 := by
  obtain ⟨numer, denom⟩ := powerFits_of_power? fits hh
  obtain ⟨raised, hraised, hh⟩ := exists_raised hh
  split_ifs at hh with negative
  · obtain ⟨nonzero, -, cross⟩ := ofQuotient?_spec hraised
    refine .inr fun h0 => ?_
    have power : f.numer.toPolynomial ^ k.natAbs = 0 := by
      rw [h0]
      exact zero_pow (by omega)
    rw [Poly.toPolynomial_power_of_fits numer, power, zero_mul] at cross
    exact numer_ne_zero_of_inverse? hh ((mul_eq_zero.mp cross).resolve_right nonzero)
  · exact .inl (not_lt.mp negative)

theorem Reduced.eventually_power (hf : f.Reduced) (fits : f.powerFits k = true)
    (hh : f.power? k = some h) :
    ∀ᶠ t in cofinite, (f.valueAt t ≠ 0 ∨ 0 ≤ k) ∧ h.valueAt t = f.valueAt t ^ k := by
  have base : ∀ᶠ t in cofinite, f.valueAt t ≠ 0 ∨ 0 ≤ k := by
    rcases numer_ne_zero_of_power? fits hh with nonneg | h0
    · exact .of_forall fun t => .inr nonneg
    · exact (hf.eventually_ne_zero h0).mono fun t ht => .inl ht
  filter_upwards [hf.eventually_hasValue, base] with t hft hbase
  exact ⟨hbase, (hft.power hbase fits hh).valueAt_eq⟩

/-! ### When an operation answers -/

theorem exists_ofQuotient? (hd : d.toPolynomial ≠ 0) (n : Poly) : ∃ f, ofQuotient? n d = some f := by
  rw [ofQuotient?, if_neg (mt Poly.isZero_iff.mp hd)]
  split_ifs with hn
  · exact ⟨_, rfl⟩
  · have bound : (Poly.gcd n d).bound ≠ 0 :=
      mt Poly.toPolynomial_eq_zero_iff.mpr (Poly.monic_gcd (.inr hd)).ne_zero
    obtain ⟨n', hn'⟩ := Poly.exists_divExact? bound (Poly.gcd_dvd_left n d)
    obtain ⟨d', hd'⟩ := Poly.exists_divExact? bound (Poly.gcd_dvd_right n d)
    simp only [hn', hd', Option.bind_eq_bind, Option.bind_some]
    exact ⟨_, rfl⟩

private theorem denom_mul_ne_zero (hf : f.Reduced) (hg : g.Reduced) (fits : f.denom.productFits g.denom = true) :
    (f.denom * g.denom).toPolynomial ≠ 0 := by
  rw [Poly.toPolynomial_mul_of_fits fits]
  exact mul_ne_zero hf.monic.ne_zero hg.monic.ne_zero

theorem exists_add? (hf : f.Reduced) (hg : g.Reduced) (fits : f.sumFits g = true) :
    ∃ h, f.add? g = some h :=
  exists_ofQuotient? (denom_mul_ne_zero hf hg (sumFits_iff.mp fits).2.2) _

theorem exists_mul? (hf : f.Reduced) (hg : g.Reduced) (fits : f.productFits g = true) :
    ∃ h, f.mul? g = some h :=
  exists_ofQuotient? (denom_mul_ne_zero hf hg (productFits_iff.mp fits).2) _

theorem exists_inverse? (h0 : f.numer.toPolynomial ≠ 0) : ∃ h, f.inverse? = some h :=
  exists_ofQuotient? h0 _

/-- Powers with exponents of up to 64 bits are worked out, negative ones of a function other than
zero. -/
theorem exists_power? (hf : f.Reduced) (hk : k.natAbs < UInt64.size) (fits : f.powerFits k = true)
    (h0 : 0 ≤ k ∨ f.numer.toPolynomial ≠ 0) : ∃ h, f.power? k = some h := by
  rw [powerFits, Expr.exponentSize?, if_pos hk, Option.all_some, Bool.and_eq_true] at fits
  have denom : (f.denom.power k.natAbs).toPolynomial ≠ 0 := by
    rw [Poly.toPolynomial_power_of_fits fits.2]
    exact pow_ne_zero _ hf.monic.ne_zero
  obtain ⟨raised, hraised⟩ := exists_ofQuotient? denom (f.numer.power k.natAbs)
  simp only [power?, Expr.exponentSize?, if_pos hk, Option.bind_eq_bind, Option.bind_some, hraised]
  split_ifs with negative
  · apply exists_inverse?
    obtain ⟨-, -, cross⟩ := ofQuotient?_spec hraised
    intro h1
    rw [h1, zero_mul, Poly.toPolynomial_power_of_fits fits.1] at cross
    have numer : f.numer.toPolynomial ^ k.natAbs ≠ 0 := pow_ne_zero _ (h0.resolve_left (by omega))
    exact mul_ne_zero numer (ofQuotient?_spec hraised).2.1.monic.ne_zero cross.symm
  · exact ⟨_, rfl⟩

/-! ### Exact values -/

variable {e : Expr} {v : String} {c q : Rat}

theorem OfExpr.eval_of_exactValue? (hf : OfExpr v e f)
    (hc : (e.substitute v (.const q)).exactValue? = some c) :
    f.denom.eval q ≠ 0 ∧ f.numer.eval q = c * f.denom.eval q := by
  have denotes := Expr.denotes_substitute_const.mp (Expr.denotes_of_exactValue? hc fun _ => 0)
  obtain ⟨nonzero, product⟩ := hf.hasValue denotes
  rw [Function.update_self, Poly.valueAt_ratCast] at nonzero product
  rw [Poly.valueAt_ratCast] at product
  exact ⟨by exact_mod_cast nonzero, by exact_mod_cast product⟩

end RationalFunction

end Tutor
