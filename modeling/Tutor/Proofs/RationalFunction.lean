import Tutor.Proofs.Poly.Division
import Tutor.Proofs.RationalFunction.Overflow
import Tutor.Proofs.Simplify.Pass

/-!
The rational function of an expression. It is in lowest terms, and wherever the expression denotes a
number, its denominator is not zero and it takes this number as its value, as long as no sum of powers
wraps around: reducing a quotient never loses a point at which the quotient is defined. The converse fails,
since a reduced quotient may be defined where the expression is not.
-/

set_option autoImplicit false
set_option relaxedAutoImplicit false

namespace Tutor

namespace Poly

/-! ### Values of polynomials at a real number -/

variable (p q : Poly) (t : ℝ)

theorem valueAt_zero : (0 : Poly).valueAt t = 0 := rfl

private theorem valueAt_one : (1 : Poly).valueAt t = 1 := by
  rw [← aeval_toPolynomial, toPolynomial_one, map_one]

theorem valueAt_const (c : Rat) : (const c).valueAt t = c := by
  rw [← aeval_toPolynomial, toPolynomial_const, Polynomial.aeval_C, eq_ratCast]

theorem valueAt_x : x.valueAt t = t := by
  rw [← aeval_toPolynomial, toPolynomial_x, Polynomial.aeval_X]

private theorem valueAt_add : (p + q).valueAt t = p.valueAt t + q.valueAt t := by
  simp only [← aeval_toPolynomial, toPolynomial_add, map_add]

theorem valueAt_mul (fits : p.productFits q = true) :
    (p * q).valueAt t = p.valueAt t * q.valueAt t := by
  simp only [← aeval_toPolynomial, toPolynomial_mul_of_fits fits, map_mul]

theorem valueAt_neg : (-p).valueAt t = -p.valueAt t := by
  simp only [← aeval_toPolynomial, toPolynomial_neg, map_neg]

private theorem valueAt_power {n : Nat} (fits : p.powerFits n = true) :
    (p.power n).valueAt t = p.valueAt t ^ n := by
  simp only [← aeval_toPolynomial, toPolynomial_power_of_fits fits, map_pow]

theorem valueAt_ratCast (r : Rat) : p.valueAt r = p.eval r := by
  rw [← aeval_toPolynomial, ← eval_toPolynomial, ← eq_ratCast (algebraMap ℚ ℝ) r,
    Polynomial.aeval_algebraMap_apply, Polynomial.coe_aeval_eq_eval, eq_ratCast]

end Poly

namespace RationalFunction

variable {f g h : RationalFunction} {n d : Poly} {t x y : ℝ}

/-! ### Lowest terms -/

/-- Numerator and denominator have no common factor, and the leading coefficient of the denominator is
one. -/
structure Reduced (f : RationalFunction) : Prop where
  monic : f.denom.toPolynomial.Monic
  coprime : IsCoprime f.numer.toPolynomial f.denom.toPolynomial

theorem reduced_of_denom_eq_one (hf : f.denom = 1) : f.Reduced := by
  refine ⟨?_, ?_⟩
  · rw [hf, Poly.toPolynomial_one]
    exact Polynomial.monic_one
  · rw [hf, Poly.toPolynomial_one]
    exact isCoprime_one_right

theorem Reduced.neg (hf : f.Reduced) : f.neg.Reduced := by
  refine ⟨hf.monic, ?_⟩
  rw [RationalFunction.neg, Poly.toPolynomial_neg]
  exact hf.coprime.neg_left

structure InLowestTerms (f : RationalFunction) : Prop where
  denom_ne_zero : f.denom.toPolynomial ≠ 0
  coprime : IsCoprime f.numer.toPolynomial f.denom.toPolynomial

theorem Reduced.inLowestTerms (hf : f.Reduced) : f.InLowestTerms := ⟨hf.monic.ne_zero, hf.coprime⟩

theorem InLowestTerms.numer_ne_zero (hf : f.InLowestTerms) (ht : f.denom.valueAt t = 0) :
    f.numer.valueAt t ≠ 0 := by
  intro hn
  obtain ⟨u, w, bezout⟩ := hf.coprime
  have value := congrArg (Polynomial.aeval t) bezout
  rw [map_add, map_mul, map_mul, Poly.aeval_toPolynomial, Poly.aeval_toPolynomial, hn, ht, map_one,
    mul_zero, mul_zero, add_zero] at value
  exact zero_ne_one value

/-- What is left of two polynomials when their greatest common divisor is divided out has no common
factor. -/
private theorem isCoprime_of_gcd_quotients {n' d' : Poly} (h0 : (Poly.gcd n d).toPolynomial ≠ 0)
    (hn : n.toPolynomial = n'.toPolynomial * (Poly.gcd n d).toPolynomial)
    (hd : d.toPolynomial = d'.toPolynomial * (Poly.gcd n d).toPolynomial) :
    IsCoprime n'.toPolynomial d'.toPolynomial := by
  apply IsRelPrime.isCoprime
  intro c hcn hcd
  have common : c * (Poly.gcd n d).toPolynomial ∣ 1 * (Poly.gcd n d).toPolynomial := by
    rw [one_mul, Poly.dvd_gcd_iff]
    refine ⟨?_, ?_⟩
    · exact hn.symm ▸ mul_dvd_mul_right hcn _
    · exact hd.symm ▸ mul_dvd_mul_right hcd _
  exact isUnit_of_dvd_one ((mul_dvd_mul_iff_right h0).mp common)

/-- Dividing numerator and denominator by their greatest common divisor and by the leading coefficient
keeps the quotient and brings it to lowest terms. -/
theorem ofQuotient?_spec (hf : ofQuotient? n d = some f) : d.toPolynomial ≠ 0 ∧ f.Reduced ∧
    f.numer.toPolynomial * d.toPolynomial = n.toPolynomial * f.denom.toPolynomial := by
  unfold ofQuotient? at hf
  split_ifs at hf with hd hn
  · obtain rfl := Option.some.inj hf
    refine ⟨mt Poly.isZero_iff.mpr hd, reduced_of_denom_eq_one rfl, ?_⟩
    simp only [Poly.isZero_iff.mp hn, zero_mul]
  · have gcd_monic := Poly.monic_gcd (a := n) (.inr (mt Poly.isZero_iff.mpr hd))
    have gcd_bound : (Poly.gcd n d).bound ≠ 0 := mt Poly.toPolynomial_eq_zero_iff.mpr gcd_monic.ne_zero
    simp only [Option.bind_eq_bind, Option.bind_eq_some_iff, Option.pure_def, Option.some.injEq] at hf
    obtain ⟨n', hn', d', hd', rfl⟩ := hf
    have lead : d'.toPolynomial.leadingCoeff ≠ 0 := by
      rw [Polynomial.leadingCoeff_ne_zero]
      exact Poly.divExact?_ne_zero gcd_bound (mt Poly.isZero_iff.mpr hd) hd'
    rw [Poly.divExact?_eq_some_iff gcd_bound] at hn' hd'
    have unit : IsUnit (Polynomial.C (1 / d'.leading)) := by
      rw [Poly.leading_eq_leadingCoeff, Polynomial.isUnit_C, isUnit_iff_ne_zero]
      exact one_div_ne_zero lead
    have coprime := isCoprime_of_gcd_quotients gcd_monic.ne_zero hn' hd'
    refine ⟨mt Poly.isZero_iff.mpr hd, ⟨?_, ?_⟩, ?_⟩
    · simp only [Poly.toPolynomial_scale, Poly.leading_eq_leadingCoeff, one_div]
      exact Polynomial.monic_mul_leadingCoeff_inv (Polynomial.leadingCoeff_ne_zero.mp lead)
    · simp only [Poly.toPolynomial_scale]
      exact (isCoprime_mul_unit_right unit _ _).mpr coprime
    · simp only [Poly.toPolynomial_scale, hn', hd']
      ring

/-! ### Values -/

/-- The rational function has this value: its denominator is not zero there, and the quotient is the
value. -/
structure HasValue (f : RationalFunction) (t x : ℝ) : Prop where
  denom_ne_zero : f.denom.valueAt t ≠ 0
  value : f.numer.valueAt t = x * f.denom.valueAt t

theorem hasValue_ofPoly (p : Poly) (t : ℝ) : (ofPoly p).HasValue t (p.valueAt t) := by
  refine ⟨?_, ?_⟩
  · rw [ofPoly, Poly.valueAt_one]
    exact one_ne_zero
  · rw [ofPoly, Poly.valueAt_one, mul_one]

/-- Wherever the divisor of a quotient is not zero, the reduced quotient has its value. -/
theorem hasValue_ofQuotient? (hf : ofQuotient? n d = some f) (hd : d.valueAt t ≠ 0)
    (hn : n.valueAt t = x * d.valueAt t) : f.HasValue t x := by
  obtain ⟨-, reduced, same⟩ := ofQuotient?_spec hf
  -- The reduced denominator divides the divisor, so it has no zero where the divisor has none.
  have divides : f.denom.toPolynomial ∣ d.toPolynomial := by
    apply reduced.coprime.symm.dvd_of_dvd_mul_left
    rw [same]
    exact Dvd.intro_left _ rfl
  obtain ⟨g, hg⟩ := divides
  have split_d : d.valueAt t = f.denom.valueAt t * Polynomial.aeval t g := by
    rw [← Poly.aeval_toPolynomial, hg, map_mul, Poly.aeval_toPolynomial]
  have cross : f.numer.valueAt t * d.valueAt t = n.valueAt t * f.denom.valueAt t := by
    simpa only [map_mul, Poly.aeval_toPolynomial] using congrArg (Polynomial.aeval t) same
  refine ⟨?_, ?_⟩
  · intro h0
    rw [h0, zero_mul] at split_d
    exact hd split_d
  · apply mul_right_cancel₀ hd
    rw [cross, hn]
    ring

theorem sumFits_iff : f.sumFits g = true ↔ f.numer.productFits g.denom = true ∧
    g.numer.productFits f.denom = true ∧ f.denom.productFits g.denom = true := by
  rw [sumFits, Bool.and_eq_true, Bool.and_eq_true, and_assoc]

theorem productFits_iff : f.productFits g = true ↔
    f.numer.productFits g.numer = true ∧ f.denom.productFits g.denom = true := by
  rw [productFits, Bool.and_eq_true]

theorem HasValue.add (hf : f.HasValue t x) (hg : g.HasValue t y) (fits : f.sumFits g = true)
    (hh : f.add? g = some h) : h.HasValue t (x + y) := by
  obtain ⟨left, right, denom⟩ := sumFits_iff.mp fits
  refine hasValue_ofQuotient? hh ?_ ?_
  · rw [Poly.valueAt_mul _ _ _ denom]
    exact mul_ne_zero hf.denom_ne_zero hg.denom_ne_zero
  · rw [Poly.valueAt_add, Poly.valueAt_mul _ _ _ left, Poly.valueAt_mul _ _ _ right,
      Poly.valueAt_mul _ _ _ denom, hf.value, hg.value]
    ring

theorem HasValue.mul (hf : f.HasValue t x) (hg : g.HasValue t y) (fits : f.productFits g = true)
    (hh : f.mul? g = some h) : h.HasValue t (x * y) := by
  obtain ⟨numer, denom⟩ := productFits_iff.mp fits
  refine hasValue_ofQuotient? hh ?_ ?_
  · rw [Poly.valueAt_mul _ _ _ denom]
    exact mul_ne_zero hf.denom_ne_zero hg.denom_ne_zero
  · rw [Poly.valueAt_mul _ _ _ numer, Poly.valueAt_mul _ _ _ denom, hf.value, hg.value]
    ring

theorem HasValue.neg (hf : f.HasValue t x) : f.neg.HasValue t (-x) := by
  refine ⟨hf.denom_ne_zero, ?_⟩
  rw [RationalFunction.neg, Poly.valueAt_neg, hf.value, neg_mul]

theorem HasValue.inverse (hf : f.HasValue t x) (hx : x ≠ 0) (hh : f.inverse? = some h) :
    h.HasValue t x⁻¹ := by
  refine hasValue_ofQuotient? hh ?_ ?_
  · rw [hf.value]
    exact mul_ne_zero hx hf.denom_ne_zero
  · rw [hf.value, inv_mul_cancel_left₀ hx]

/-- How a power comes about: the power of the size of the exponent is brought to lowest terms, and inverted
for a negative exponent. -/
theorem exists_raised {k : Int} (hh : f.power? k = some h) : ∃ raised,
    ofQuotient? (f.numer.power k.natAbs) (f.denom.power k.natAbs) = some raised ∧
      (if k < 0 then raised.inverse? else some raised) = some h := by
  simp only [power?, Expr.exponentSize?, Option.bind_eq_bind, Option.bind_eq_some_iff,
    Option.ite_none_right_eq_some, Option.some.injEq] at hh
  obtain ⟨_, ⟨-, rfl⟩, raised, hraised, hh⟩ := hh
  exact ⟨raised, hraised, hh⟩

theorem powerFits_of_power? {k : Int} (fits : f.powerFits k = true) (hh : f.power? k = some h) :
    f.numer.powerFits k.natAbs = true ∧ f.denom.powerFits k.natAbs = true := by
  simp only [power?, Expr.exponentSize?, Option.bind_eq_bind, Option.bind_eq_some_iff,
    Option.ite_none_right_eq_some] at hh
  obtain ⟨_, ⟨word, -⟩, -⟩ := hh
  rwa [powerFits, Expr.exponentSize?, if_pos word, Option.all_some, Bool.and_eq_true] at fits

theorem HasValue.power {k : Int} (hf : f.HasValue t x) (hx : x ≠ 0 ∨ 0 ≤ k)
    (fits : f.powerFits k = true) (hh : f.power? k = some h) : h.HasValue t (x ^ k) := by
  obtain ⟨numer, denom⟩ := powerFits_of_power? fits hh
  obtain ⟨raised, hraised, hh⟩ := exists_raised hh
  have whole : raised.HasValue t (x ^ k.natAbs) := by
    refine hasValue_ofQuotient? hraised ?_ ?_
    · rw [Poly.valueAt_power _ _ denom]
      exact pow_ne_zero _ hf.denom_ne_zero
    · rw [Poly.valueAt_power _ _ numer, Poly.valueAt_power _ _ denom, hf.value, mul_pow]
  split_ifs at hh with negative
  · have hk : k = -(k.natAbs : Int) := by omega
    have hx : x ≠ 0 := hx.resolve_right (by omega)
    rw [hk, zpow_neg, zpow_natCast]
    exact whole.inverse (pow_ne_zero _ hx) hh
  · have hk : k = (k.natAbs : Int) := by omega
    obtain rfl := Option.some.inj hh
    rw [hk, zpow_natCast]
    exact whole

end RationalFunction

namespace Expr

variable {ρ : String → ℝ} {e : Expr} {q : Rat} {r : ℝ} {k : Int}

theorem signedConst?_induction {P : Expr → Rat → Prop} (const : ∀ c, P (.const c) c)
    (neg : ∀ a c, P a c → P (.neg a) (-c)) (h : e.signedConst? = some q) : P e q := by
  induction e generalizing q with
  | const c =>
    obtain rfl := Option.some.inj h
    exact const c
  | neg a ih =>
    rw [signedConst?, Option.map_eq_some_iff] at h
    obtain ⟨c, hc, rfl⟩ := h
    exact neg a c (ih hc)
  | _ => cases h

theorem signedConst?_of_signedInteger? (h : e.signedInteger? = some k) :
    e.signedConst? = some (k : Rat) := by
  simp only [signedInteger?, Option.bind_eq_bind, Option.bind_eq_some_iff,
    Option.ite_none_right_eq_some, Option.some.injEq] at h
  obtain ⟨q, hq, whole, rfl⟩ := h
  rw [hq, (Rat.den_eq_one_iff q).mp whole]

theorem denotes_signedConst? (h : e.signedConst? = some q) : Denotes ρ e q := by
  refine signedConst?_induction (P := fun e q => Denotes ρ e q) denotes_const ?_ h
  intro a c ha
  exact denotes_neg.mpr ⟨c, ha, (Rat.cast_neg c).symm⟩

theorem denotes_signedInteger? (h : e.signedInteger? = some k) : Denotes ρ e k := by
  have denoted : Denotes ρ e ((k : Rat) : ℝ) := denotes_signedConst? (signedConst?_of_signedInteger? h)
  rwa [Rat.cast_intCast] at denoted

theorem eq_of_constantValue? (h : e.constantValue? = some q) (he : Denotes ρ e r) : (q : ℝ) = r := by
  rw [← (denotes_simplify he).value]
  exact (denotes_signedConst? h).value.symm

end Expr

namespace RationalFunction

variable {f : RationalFunction} {e : Expr} {v : String}

/-- How an expression gets its rational function: one rule for parts without the variable, and one for
every node that can stand above the variable, where no sum of powers may wrap around. -/
inductive OfExpr (v : String) : Expr → RationalFunction → Prop
  | constant {e : Expr} {c : Rat} (free : e.mentions v = false) (hc : e.constantValue? = some c) :
      OfExpr v e (ofPoly (.const c))
  | var : OfExpr v (.var v) (ofPoly .x)
  | add {a b : Expr} {f g h : RationalFunction} (hv : ¬(Expr.add a b).mentions v = false)
      (ha : OfExpr v a f) (hb : OfExpr v b g) (fits : f.sumFits g = true) (hh : f.add? g = some h) :
      OfExpr v (.add a b) h
  | sub {a b : Expr} {f g h : RationalFunction} (hv : ¬(Expr.sub a b).mentions v = false)
      (ha : OfExpr v a f) (hb : OfExpr v b g) (fits : f.sumFits g.neg = true)
      (hh : f.add? g.neg = some h) : OfExpr v (.sub a b) h
  | mul {a b : Expr} {f g h : RationalFunction} (hv : ¬(Expr.mul a b).mentions v = false)
      (ha : OfExpr v a f) (hb : OfExpr v b g) (fits : f.productFits g = true) (hh : f.mul? g = some h) :
      OfExpr v (.mul a b) h
  | div {a b : Expr} {f g i h : RationalFunction} (hv : ¬(Expr.div a b).mentions v = false)
      (ha : OfExpr v a f) (hb : OfExpr v b g) (hi : g.inverse? = some i) (fits : f.productFits i = true)
      (hh : f.mul? i = some h) : OfExpr v (.div a b) h
  | neg {a : Expr} {f : RationalFunction} (hv : ¬(Expr.neg a).mentions v = false) (ha : OfExpr v a f) :
      OfExpr v (.neg a) f.neg
  | pow {a b : Expr} {f h : RationalFunction} {k : Int} (hv : ¬(Expr.pow a b).mentions v = false)
      (hk : b.signedInteger? = some k) (ha : OfExpr v a f) (fits : f.powerFits k = true)
      (hh : f.power? k = some h) : OfExpr v (.pow a b) h

/-- Induction on how an expression gets its rational function: a part without the variable gets a
constant, and a node above the variable combines the functions of its parts. -/
@[elab_as_elim]
theorem ofExpr?_induction {motive : ∀ e f, ofExpr? v e = some f → Prop}
    (constant : ∀ e c h, e.mentions v = false → e.constantValue? = some c →
      motive e (ofPoly (.const c)) h)
    (var : ∀ h, motive (.var v) (ofPoly .x) h)
    (add : ∀ a b fa fb f h (ha : ofExpr? v a = some fa) (hb : ofExpr? v b = some fb),
      ¬(Expr.add a b).mentions v = false → fa.add? fb = some f → motive a fa ha → motive b fb hb →
        motive (.add a b) f h)
    (sub : ∀ a b fa fb f h (ha : ofExpr? v a = some fa) (hb : ofExpr? v b = some fb),
      ¬(Expr.sub a b).mentions v = false → fa.add? fb.neg = some f → motive a fa ha → motive b fb hb →
        motive (.sub a b) f h)
    (mul : ∀ a b fa fb f h (ha : ofExpr? v a = some fa) (hb : ofExpr? v b = some fb),
      ¬(Expr.mul a b).mentions v = false → fa.mul? fb = some f → motive a fa ha → motive b fb hb →
        motive (.mul a b) f h)
    (div : ∀ a b fa fb i f h (ha : ofExpr? v a = some fa) (hb : ofExpr? v b = some fb),
      ¬(Expr.div a b).mentions v = false → fb.inverse? = some i → fa.mul? i = some f →
        motive a fa ha → motive b fb hb → motive (.div a b) f h)
    (pow : ∀ a b fa k f h (ha : ofExpr? v a = some fa), ¬(Expr.pow a b).mentions v = false →
      b.signedInteger? = some k → fa.power? k = some f → motive a fa ha → motive (.pow a b) f h)
    (neg : ∀ a fa h (ha : ofExpr? v a = some fa), ¬(Expr.neg a).mentions v = false → motive a fa ha →
      motive (.neg a) fa.neg h)
    {e : Expr} {f : RationalFunction} (h : ofExpr? v e = some f) : motive e f h := by
  have cases_on {e : Expr} {f : RationalFunction} (h : ofExpr? v e = some f)
      (rule : ¬e.mentions v = false → motive e f h) : motive e f h := by
    by_cases hv : e.mentions v = false
    · have value := h
      rw [ofExpr?.eq_def, if_pos hv, Option.map_eq_some_iff] at value
      obtain ⟨c, hc, rfl⟩ := value
      exact constant e c h hv hc
    · exact rule hv
  induction e generalizing f with
  | var name =>
    refine cases_on h fun hv => ?_
    obtain rfl : name = v := by simpa [Expr.mentions] using hv
    have value := h
    rw [ofExpr?, if_neg hv] at value
    obtain rfl := Option.some.inj value
    exact var h
  | const c => exact cases_on h fun hv => absurd rfl hv
  | add a b iha ihb =>
    refine cases_on h fun hv => ?_
    have parts := h
    rw [ofExpr?, if_neg hv] at parts
    simp only [Option.bind_eq_bind, Option.bind_eq_some_iff] at parts
    obtain ⟨fa, ha, fb, hb, hf⟩ := parts
    exact add a b fa fb f h ha hb hv hf (iha ha) (ihb hb)
  | sub a b iha ihb =>
    refine cases_on h fun hv => ?_
    have parts := h
    rw [ofExpr?, if_neg hv] at parts
    simp only [Option.bind_eq_bind, Option.bind_eq_some_iff] at parts
    obtain ⟨fa, ha, fb, hb, hf⟩ := parts
    exact sub a b fa fb f h ha hb hv hf (iha ha) (ihb hb)
  | mul a b iha ihb =>
    refine cases_on h fun hv => ?_
    have parts := h
    rw [ofExpr?, if_neg hv] at parts
    simp only [Option.bind_eq_bind, Option.bind_eq_some_iff] at parts
    obtain ⟨fa, ha, fb, hb, hf⟩ := parts
    exact mul a b fa fb f h ha hb hv hf (iha ha) (ihb hb)
  | div a b iha ihb =>
    refine cases_on h fun hv => ?_
    have parts := h
    rw [ofExpr?, if_neg hv] at parts
    simp only [Option.bind_eq_bind, Option.bind_eq_some_iff] at parts
    obtain ⟨fa, ha, fb, hb, i, hi, hf⟩ := parts
    exact div a b fa fb i f h ha hb hv hi hf (iha ha) (ihb hb)
  | pow a b iha _ =>
    refine cases_on h fun hv => ?_
    have parts := h
    rw [ofExpr?, if_neg hv] at parts
    simp only [Option.bind_eq_bind, Option.bind_eq_some_iff] at parts
    obtain ⟨k, hk, fa, ha, hf⟩ := parts
    exact pow a b fa k f h ha hv hk hf (iha ha)
  | neg a ih =>
    refine cases_on h fun hv => ?_
    have parts := h
    rw [ofExpr?, if_neg hv] at parts
    simp only [Option.bind_eq_bind, Option.bind_eq_some_iff, Option.pure_def, Option.some.injEq] at parts
    obtain ⟨fa, ha, rfl⟩ := parts
    exact neg a fa h ha hv (ih ha)
  | sin a | cos a | tan a | exp a | log a =>
    refine cases_on h fun hv => ?_
    simp only [ofExpr?.eq_def, if_neg hv] at h
    cases h

theorem ofExpr_of_eq_some (h : ofExpr? v e = some f) (fits : ofExprFits v e = true) : OfExpr v e f := by
  induction h using ofExpr?_induction with
  | constant e c _ free hc => exact .constant free hc
  | var _ => exact .var
  | add a b fa fb f _ ha hb hv hf iha ihb =>
    rw [ofExprFits, if_neg hv] at fits
    simp only [ha, hb, Option.all_some, Bool.and_eq_true] at fits
    exact .add hv (iha fits.1) (ihb fits.2.1) fits.2.2 hf
  | sub a b fa fb f _ ha hb hv hf iha ihb =>
    rw [ofExprFits, if_neg hv] at fits
    simp only [ha, hb, Option.all_some, Bool.and_eq_true] at fits
    exact .sub hv (iha fits.1) (ihb fits.2.1) fits.2.2 hf
  | mul a b fa fb f _ ha hb hv hf iha ihb =>
    rw [ofExprFits, if_neg hv] at fits
    simp only [ha, hb, Option.all_some, Bool.and_eq_true] at fits
    exact .mul hv (iha fits.1) (ihb fits.2.1) fits.2.2 hf
  | div a b fa fb i f _ ha hb hv hi hf iha ihb =>
    rw [ofExprFits, if_neg hv] at fits
    simp only [ha, hb, hi, Option.all_some, Bool.and_eq_true] at fits
    exact .div hv (iha fits.1) (ihb fits.2.1) hi fits.2.2 hf
  | pow a b fa k f _ ha hv hk hf ih =>
    rw [ofExprFits, if_neg hv] at fits
    simp only [ha, hk, Option.all_some, Bool.and_eq_true] at fits
    exact .pow hv hk (ih fits.1) fits.2 hf
  | neg a fa _ ha hv ih =>
    rw [ofExprFits, if_neg hv] at fits
    exact .neg hv (ih fits)

theorem OfExpr.eq_some (h : OfExpr v e f) : ofExpr? v e = some f := by
  induction h with
  | @constant e c free hc => rw [ofExpr?.eq_def, if_pos free, hc, Option.map_some]
  | var => rw [ofExpr?, if_neg (by simp [Expr.mentions])]
  | add hv _ _ _ hh iha ihb | sub hv _ _ _ hh iha ihb | mul hv _ _ _ hh iha ihb =>
    rw [ofExpr?, if_neg hv, iha, ihb]
    exact hh
  | div hv _ _ hi _ hh iha ihb =>
    rw [ofExpr?, if_neg hv, iha, ihb]
    simp only [Option.bind_eq_bind, Option.bind_some, hi]
    exact hh
  | neg hv _ ih =>
    rw [ofExpr?, if_neg hv, ih]
    rfl
  | pow hv hk _ _ hh ih =>
    rw [ofExpr?, if_neg hv, hk, ih]
    exact hh

theorem OfExpr.fits (h : OfExpr v e f) : ofExprFits v e = true := by
  induction h with
  | constant free => rw [ofExprFits.eq_def, if_pos free]
  | var => rw [ofExprFits.eq_def, if_neg (by simp [Expr.mentions])]
  | add hv ha hb fits _ iha ihb | sub hv ha hb fits _ iha ihb | mul hv ha hb fits _ iha ihb =>
    rw [ofExprFits, if_neg hv, iha, ihb, ha.eq_some, hb.eq_some]
    simpa only [Option.all_some, Bool.true_and] using fits
  | div hv ha hb hi fits _ iha ihb =>
    rw [ofExprFits, if_neg hv, iha, ihb, ha.eq_some, hb.eq_some]
    simpa only [Option.all_some, Bool.true_and, hi] using fits
  | neg hv _ ih => rw [ofExprFits, if_neg hv, ih]
  | pow hv hk ha fits _ ih =>
    rw [ofExprFits, if_neg hv, hk, Option.all_some, ih, ha.eq_some]
    simpa only [Option.all_some, Bool.true_and] using fits

private theorem reduced_of_power? {k : Int} {g : RationalFunction} (hh : f.power? k = some g) : g.Reduced := by
  obtain ⟨raised, hraised, hh⟩ := exists_raised hh
  split_ifs at hh
  · exact (ofQuotient?_spec hh).2.1
  · obtain rfl := Option.some.inj hh
    exact (ofQuotient?_spec hraised).2.1

/-- The rational function of an expression is in lowest terms, also where sums of powers wrap around. -/
theorem reduced_of_ofExpr? (h : ofExpr? v e = some f) : f.Reduced := by
  induction h using ofExpr?_induction with
  | constant => exact reduced_of_denom_eq_one rfl
  | var => exact reduced_of_denom_eq_one rfl
  | add _ _ _ _ _ _ _ _ _ hf => exact (ofQuotient?_spec hf).2.1
  | sub _ _ _ _ _ _ _ _ _ hf => exact (ofQuotient?_spec hf).2.1
  | mul _ _ _ _ _ _ _ _ _ hf => exact (ofQuotient?_spec hf).2.1
  | div _ _ _ _ _ _ _ _ _ _ _ hf => exact (ofQuotient?_spec hf).2.1
  | pow _ _ _ _ _ _ _ _ _ hf => exact reduced_of_power? hf
  | neg _ _ _ _ _ ih => exact ih.neg

theorem OfExpr.reduced (h : OfExpr v e f) : f.Reduced := by
  induction h with
  | constant | var => exact reduced_of_denom_eq_one rfl
  | add _ _ _ _ hh => exact (ofQuotient?_spec hh).2.1
  | sub _ _ _ _ hh => exact (ofQuotient?_spec hh).2.1
  | mul _ _ _ _ hh => exact (ofQuotient?_spec hh).2.1
  | div _ _ _ _ _ hh => exact (ofQuotient?_spec hh).2.1
  | neg _ _ ih => exact ih.neg
  | pow _ _ _ _ hh => exact reduced_of_power? hh

/-- Wherever an expression denotes a number, its rational function has this value. The induction is on
how the function came about; the divisors of the expression are not zero, so no reciprocal is taken of
a zero. -/
theorem OfExpr.hasValue {ρ : String → ℝ} {r : ℝ} (h : OfExpr v e f) (he : Expr.Denotes ρ e r) :
    f.HasValue (ρ v) r := by
  induction h generalizing r with
  | @constant _ c _ hc =>
    have value := hasValue_ofPoly (.const c) (ρ v)
    rwa [Poly.valueAt_const, Expr.eq_of_constantValue? hc he] at value
  | var =>
    have value := hasValue_ofPoly .x (ρ v)
    rw [Poly.valueAt_x] at value
    rwa [← he.value]
  | add _ _ _ fits hh iha ihb =>
    obtain ⟨x, y, ha, hb, rfl⟩ := Expr.denotes_add.mp he
    exact (iha ha).add (ihb hb) fits hh
  | sub _ _ _ fits hh iha ihb =>
    obtain ⟨x, y, ha, hb, rfl⟩ := Expr.denotes_sub.mp he
    rw [sub_eq_add_neg]
    exact (iha ha).add (ihb hb).neg fits hh
  | mul _ _ _ fits hh iha ihb =>
    obtain ⟨x, y, ha, hb, rfl⟩ := Expr.denotes_mul.mp he
    exact (iha ha).mul (ihb hb) fits hh
  | div _ _ _ hi fits hh iha ihb =>
    obtain ⟨x, y, ha, hb, h0, rfl⟩ := Expr.denotes_div.mp he
    rw [div_eq_mul_inv]
    exact (iha ha).mul ((ihb hb).inverse h0 hi) fits hh
  | neg _ _ ih =>
    obtain ⟨x, ha, rfl⟩ := Expr.denotes_neg.mp he
    exact (ih ha).neg
  | @pow _ _ _ _ k _ hk _ fits hh ih =>
    obtain ⟨x, y, ha, hb, power, rfl⟩ := Expr.denotes_pow.mp he
    have exponent : y = (k : ℝ) := hb.value.symm.trans (Expr.denotes_signedInteger? hk).value
    rw [exponent] at power ⊢
    rw [Real.rpow_intCast]
    refine (ih ha).power ?_ fits hh
    rcases eq_or_ne x 0 with h0 | h0
    · rw [h0] at power
      exact .inr (by exact_mod_cast power.exponent_nonneg)
    · exact .inl h0

end RationalFunction

end Tutor
