import Tutor.Calculus.Limit
import Tutor.Proofs.Calculus.Derivative
import Tutor.Proofs.Poly.Multiplicity
import Tutor.Proofs.RationalFunction.Values

/-!
Limits from the right. A rational function in lowest terms has at every point the limit that is worked
out for it: its value, or at a pole the signed infinity towards which it grows on the right of the pole.
-/

set_option autoImplicit false
set_option relaxedAutoImplicit false

namespace Tutor

open Filter Topology

namespace RationalFunction

variable {f : RationalFunction} {p : Rat}

/-- A limit value is the limit from the right: a finite one is the value at a point that is no pole, and
an infinite one says towards which side the values grow on the right of a pole. -/
def IsRightLimit (f : RationalFunction) (p : Rat) : LimitValue → Prop
  | .finite x =>
    f.denom.eval p ≠ 0 ∧ x = .const (f.numer.eval p / f.denom.eval p) ∧
      Tendsto f.valueAt (𝓝[>] (p : ℝ)) (𝓝 (f.valueAt p))
  | .plusInfinity => f.denom.eval p = 0 ∧ Tendsto f.valueAt (𝓝[>] (p : ℝ)) atTop
  | .minusInfinity => f.denom.eval p = 0 ∧ Tendsto f.valueAt (𝓝[>] (p : ℝ)) atBot

private theorem continuous_valueAt (q : Poly) : Continuous q.valueAt := by
  have continuous := Polynomial.continuous_aeval (A := ℝ) q.toPolynomial
  simpa only [Poly.aeval_toPolynomial] using continuous

private theorem tendsto_of_denom_ne_zero (h0 : f.denom.eval p ≠ 0) :
    Tendsto f.valueAt (𝓝[>] (p : ℝ)) (𝓝 (f.valueAt p)) := by
  have nonzero : f.denom.valueAt p ≠ 0 := by
    rw [Poly.valueAt_ratCast]
    exact_mod_cast h0
  have quotient : ContinuousAt f.valueAt p :=
    (continuous_valueAt _).continuousAt.div (continuous_valueAt _).continuousAt nonzero
  exact quotient.tendsto.mono_left nhdsWithin_le_nhds

private theorem tendsto_inv_pow_sub {m : Nat} (hm : m ≠ 0) (a : ℝ) :
    Tendsto (fun t : ℝ => ((t - a) ^ m)⁻¹) (𝓝[>] a) atTop := by
  have distance : Tendsto (fun t : ℝ => t - a) (𝓝[>] a) (𝓝[>] 0) := by
    refine tendsto_nhdsWithin_of_tendsto_nhds_of_eventually_within _ ?_ ?_
    · have continuous : Continuous fun t : ℝ => t - a := by fun_prop
      simpa using (continuous.tendsto a).mono_left nhdsWithin_le_nhds
    · filter_upwards [self_mem_nhdsWithin] with t ht
      exact sub_pos.mpr (Set.mem_Ioi.mp ht)
  have power : Tendsto (fun t : ℝ => (t⁻¹) ^ m) (𝓝[>] 0) atTop :=
    (tendsto_pow_atTop hm).comp tendsto_inv_nhdsGT_zero
  have grown := power.comp distance
  simpa only [Function.comp_def, inv_pow] using grown

/-- A zero of the denominator is a pole: the denominator is a power of the distance times a factor that
is not zero, and the quotient of the numerator by this factor has a limit other than zero. -/
theorem InLowestTerms.exists_cofactor (hf : f.InLowestTerms) (h0 : f.denom.eval p = 0) : ∃ c : Poly,
    f.denom.divExact? ((Poly.linear p).power (f.denom.multiplicity p)) = some c ∧
      f.denom.multiplicity p ≠ 0 ∧ c.eval p ≠ 0 ∧ f.numer.eval p ≠ 0 ∧
      ∀ t : ℝ, f.denom.valueAt t = c.valueAt t * (t - p) ^ f.denom.multiplicity p := by
  have hd : f.denom ≠ 0 := mt Poly.eq_zero_iff.mp hf.denom_ne_zero
  obtain ⟨c, hc, nonzero⟩ := Poly.exists_multiplicity_factor hd p
  have zero : f.denom.valueAt p = 0 := by rw [Poly.valueAt_ratCast, h0, Rat.cast_zero]
  have value (t : ℝ) : f.denom.valueAt t = c.valueAt t * (t - p) ^ f.denom.multiplicity p := by
    rw [← Poly.aeval_toPolynomial, hc, map_mul, map_pow, map_sub, Polynomial.aeval_X,
      Polynomial.aeval_C, eq_ratCast, Poly.aeval_toPolynomial]
  have bound : ((Poly.linear p).power (f.denom.multiplicity p)).bound ≠ 0 := by
    apply mt Poly.toPolynomial_eq_zero_iff.mpr
    rw [Poly.toPolynomial_power_linear hd]
    exact pow_ne_zero _ (Polynomial.X_sub_C_ne_zero p)
  refine ⟨c, ?_, ?_, nonzero, ?_, value⟩
  · rw [Poly.divExact?_eq_some_iff bound, Poly.toPolynomial_power_linear hd]
    exact hc
  · exact ((Poly.multiplicity_pos_iff hd).mpr h0).ne'
  · have numer := hf.numer_ne_zero zero
    rw [Poly.valueAt_ratCast] at numer
    exact_mod_cast numer

theorem InLowestTerms.limitFits_iff (hf : f.InLowestTerms) :
    f.limitFits p = true ↔ f.denom.multiplicity p < 2 ^ 63 := by
  have hd : f.denom ≠ 0 := mt Poly.eq_zero_iff.mp hf.denom_ne_zero
  rw [limitFits, Bool.or_eq_true, decide_eq_true_eq,
    Poly.powerFits_iff_of_natDegree_eq_one (Poly.natDegree_linear p)]
  refine or_iff_right_of_imp fun h0 => ?_
  have order := mt (Poly.multiplicity_pos_iff hd).mp h0
  have small : 0 < 2 ^ 63 := by decide
  omega

theorem InLowestTerms.isRightLimit_limitAt (hf : f.InLowestTerms) (p : Rat) :
    f.IsRightLimit p (f.limitAt p) := by
  unfold limitAt
  by_cases h0 : f.denom.eval p = 0
  · obtain ⟨c, hc, order, nonzero, numer, value⟩ := hf.exists_cofactor h0
    simp only [h0, if_true, hc, Option.map_some, Option.getD_some]
    -- Near the pole the function is a quotient with a limit, times a growing power.
    have split_f : f.valueAt = fun t : ℝ =>
        f.numer.valueAt t / c.valueAt t * ((t - p) ^ f.denom.multiplicity p)⁻¹ := by
      funext t
      rw [valueAt, value, div_mul_eq_div_div, div_eq_mul_inv (f.numer.valueAt t / c.valueAt t)]
    have growing := tendsto_inv_pow_sub order (p : ℝ)
    have hc0 : c.valueAt p ≠ 0 := by
      rw [Poly.valueAt_ratCast]
      exact_mod_cast nonzero
    have bounded : Tendsto (fun t => f.numer.valueAt t / c.valueAt t) (𝓝[>] (p : ℝ))
        (𝓝 ((f.numer.eval p / c.eval p : Rat) : ℝ)) := by
      rw [Rat.cast_div, ← Poly.valueAt_ratCast, ← Poly.valueAt_ratCast]
      exact ((continuous_valueAt _).continuousAt.div (continuous_valueAt _).continuousAt
        hc0).tendsto.mono_left nhdsWithin_le_nhds
    have same_sign : 0 < f.numer.eval p / c.eval p ↔ 0 < f.numer.eval p * c.eval p := by
      rw [div_pos_iff, mul_pos_iff]
    by_cases positive : 0 < f.numer.eval p * c.eval p
    · rw [if_pos positive]
      have limit_pos : (0 : ℝ) < (f.numer.eval p / c.eval p : Rat) := by
        exact_mod_cast same_sign.mpr positive
      refine ⟨h0, ?_⟩
      rw [split_f]
      exact bounded.pos_mul_atTop limit_pos growing
    · rw [if_neg positive]
      have limit_neg : ((f.numer.eval p / c.eval p : Rat) : ℝ) < 0 := by
        have negative : f.numer.eval p / c.eval p < 0 :=
          lt_of_le_of_ne (not_lt.mp (mt same_sign.mp positive)) (div_ne_zero numer nonzero)
        exact_mod_cast negative
      refine ⟨h0, ?_⟩
      rw [split_f]
      exact bounded.neg_mul_atTop limit_neg growing
  · simp only [h0, if_false]
    exact ⟨h0, rfl, tendsto_of_denom_ne_zero h0⟩

theorem isRightLimit_limitAt (hf : f.Reduced) (p : Rat) : f.IsRightLimit p (f.limitAt p) :=
  hf.inLowestTerms.isRightLimit_limitAt p

end RationalFunction

namespace Expr

variable {e : Expr} {v : String} {p : Rat} {f : RationalFunction}

/-- Where substitution gives an exact value, this is the value of the reduced quotient, which has no pole
there. -/
private theorem isRightLimit_of_exactValue? {c : Rat} (hf : RationalFunction.OfExpr v e f)
    (hc : (e.substitute v (.const p)).exactValue? = some c) : f.IsRightLimit p (.finite (.const c)) := by
  obtain ⟨nonzero, numer⟩ := hf.eval_of_exactValue? hc
  refine ⟨nonzero, ?_, RationalFunction.tendsto_of_denom_ne_zero nonzero⟩
  rw [numer, mul_div_cancel_right₀ _ nonzero]

/-! The three ways in which the limit of a rational function is found, in the order in which they are
tried. -/

section Answers

variable (there : Expr) (hthere : there = e.simplifyFully.substitute v (.const p)) (depth : Nat)

include hthere

private theorem limit_of_exactValue? {c : Rat} (exact : there.exactValue? = some c) :
    e.limit v p depth = .ok (.finite (.const c)) := by
  subst hthere
  rw [limit, limitFrom?.eq_def]
  simp only [valueAt?, exact]

private theorem limit_of_numericValue? {x : Float} (exact : there.exactValue? = none)
    (numeric : there.numericValue? [] = some x) :
    e.limit v p depth = .ok (.finite there.simplifyFully) := by
  subst hthere
  rw [limit, limitFrom?.eq_def]
  simp only [valueAt?, exact, numeric]

private theorem limit_of_ofExpr? (exact : there.exactValue? = none) (numeric : there.numericValue? [] = none)
    (hf : RationalFunction.ofExpr? v e.simplifyFully = some f) :
    e.limit v p depth = .ok (f.limitAt p) := by
  subst hthere
  rw [limit, limitFrom?.eq_def]
  simp only [valueAt?, exact, numeric, hf]

end Answers

/-- An expression whose simplified form is a rational function has a limit from the right at every
rational point, at any depth. If no sum of powers wraps around while it is reduced, it is the limit of the
reduced quotient, unless the simplified form has no exact value at the point and yet a floating-point one:
then the symbolic value is given, which is right if it is defined; but a divisor that vanishes may be rounded
to another number, and then it is not. At a pole the order has to have 63 bits, or the last square of a power
wraps around, which is not used. -/
theorem limit_eq_rightLimit (hf : RationalFunction.ofExpr? v e.simplifyFully = some f)
    (fits : RationalFunction.ofExprFits v e.simplifyFully = true) (p : Rat) (depth : Nat) :
    (f.limitFits p = true ↔ f.denom.multiplicity p < 2 ^ 63) ∧ ∃ l, e.limit v p depth = .ok l ∧
      (f.IsRightLimit p l ∨ ∃ there : Expr, there = e.simplifyFully.substitute v (.const p) ∧
        there.exactValue? = none ∧ (there.numericValue? []).isSome ∧ l = .finite there.simplifyFully ∧
        ∀ ρ, there.DefinedAt ρ →
          f.denom.eval p ≠ 0 ∧ Denotes ρ there.simplifyFully (f.valueAt p)) := by
  have rational := RationalFunction.ofExpr_of_eq_some hf fits
  refine ⟨rational.reduced.inLowestTerms.limitFits_iff, ?_⟩
  obtain ⟨there, hthere⟩ : ∃ there, there = e.simplifyFully.substitute v (.const p) := ⟨_, rfl⟩
  cases exact : there.exactValue? with
  | some c =>
    refine ⟨_, limit_of_exactValue? there hthere depth exact, .inl ?_⟩
    exact isRightLimit_of_exactValue? rational (hthere ▸ exact)
  | none =>
    cases numeric : there.numericValue? [] with
    | none =>
      refine ⟨_, limit_of_ofExpr? there hthere depth exact numeric hf, .inl ?_⟩
      exact RationalFunction.isRightLimit_limitAt rational.reduced p
    | some x =>
      refine ⟨_, limit_of_numericValue? there hthere depth exact numeric, .inr ?_⟩
      refine ⟨there, hthere, exact, by rw [numeric]; rfl, rfl, fun ρ defined => ?_⟩
      have denotes : Denotes (Function.update ρ v (p : ℝ)) e.simplifyFully (there.evalAt ρ) :=
        denotes_substitute_const.mp (hthere ▸ defined.denotes)
      have value := rational.hasValue denotes
      rw [Function.update_self] at value
      have nonzero := value.denom_ne_zero
      rw [Poly.valueAt_ratCast] at nonzero
      refine ⟨by exact_mod_cast nonzero, ?_⟩
      rw [RationalFunction.valueAt, value.value, mul_div_cancel_right₀ _ value.denom_ne_zero]
      exact denotes_simplifyWithLimit defined.denotes fullPasses

/-- The quotient `1 / (x - 1)` grows beyond every bound on the right of one, at any depth. -/
theorem limit_eq_rightLimit_simple_pole :
    let e : Expr := .div .one (.sub (.var "x") .one)
    let f : RationalFunction := ⟨1, .linear 1⟩
    RationalFunction.ofExpr? "x" e.simplifyFully = some f ∧
      RationalFunction.ofExprFits "x" e.simplifyFully = true ∧
      ∀ depth, ∃ l, e.limit "x" 1 depth = .ok l ∧ f.IsRightLimit 1 l ∧ l = .plusInfinity := by
  intro e f
  have simplified : e.simplifyFully = .div .one (.add (.var "x") (.const (-1))) := by
    rw [simplifyFully_eq_iterate]
    decide +kernel
  have reduced : RationalFunction.ofExpr? "x" e.simplifyFully = some f := by
    rw [simplified]
    decide +kernel
  have fits : RationalFunction.ofExprFits "x" e.simplifyFully = true := by
    rw [simplified]
    decide +kernel
  have exact : (e.simplifyFully.substitute "x" (.const 1)).exactValue? = none := by
    rw [simplified]
    decide +kernel
  have numeric : (e.simplifyFully.substitute "x" (.const 1)).numericValue? [] = none := by
    rw [simplified]
    decide +kernel
  have pole : f.limitAt 1 = .plusInfinity := by decide +kernel
  refine ⟨reduced, fits, fun depth => ?_⟩
  obtain ⟨-, l, hl, right | ⟨there, rfl, -, found, -⟩⟩ := limit_eq_rightLimit reduced fits 1 depth
  · refine ⟨l, hl, right, ?_⟩
    rw [limit_of_ofExpr? _ rfl depth exact numeric reduced, pole] at hl
    exact (Except.ok.inj hl).symm
  · rw [numeric] at found
    cases found

/-- At `1 / 10` the quotient `1 / (3 x - 3 / 10)` has a pole, but its divisor is rounded to a number other
than zero: at every depth the limit is given as `1 / 0`, which is not defined. -/
theorem limit_finite_at_rounded_pole :
    let e : Expr := .div .one (.sub (.mul (.const 3) (.var "x")) (.div (.const 3) (.const 10)))
    let f : RationalFunction := ⟨.const (1 / 3), .linear (1 / 10)⟩
    RationalFunction.ofExpr? "x" e.simplifyFully = some f ∧ f.denom.eval (1 / 10) = 0 ∧
      f.IsRightLimit (1 / 10) .plusInfinity ∧ (∀ ρ, ¬ (Expr.div .one .zero).DefinedAt ρ) ∧
      ∀ depth, e.limit "x" (1 / 10) depth = .ok (.finite (.div .one .zero)) := by
  intro e f
  have simplified : e.simplifyFully =
      .div .one (.add (.mul (.const 3) (.var "x")) (.const (-3 / 10))) := by
    rw [simplifyFully_eq_iterate]
    decide +kernel
  have reduced : RationalFunction.ofExpr? "x" e.simplifyFully = some f := by
    rw [simplified]
    decide +kernel
  obtain ⟨there, hthere⟩ : ∃ there, there = e.simplifyFully.substitute "x" (.const (1 / 10)) := ⟨_, rfl⟩
  have exact : there.exactValue? = none := by
    rw [hthere, simplified]
    decide +kernel
  have numeric : (there.numericValue? []).isSome = true := by
    rw [hthere, simplified]
    decide +kernel
  have symbolic : there.simplifyFully = .div .one .zero := by
    rw [hthere, simplified, simplifyFully_eq_iterate]
    decide +kernel
  have pole := RationalFunction.isRightLimit_limitAt
    (RationalFunction.reduced_of_ofExpr? reduced) (1 / 10)
  rw [show f.limitAt (1 / 10) = .plusInfinity by decide +kernel] at pole
  refine ⟨reduced, by decide +kernel, pole, ?_, fun depth => ?_⟩
  · rintro ρ ⟨-, -, nonzero⟩
    exact nonzero denotes_zero.value
  · obtain ⟨x, hx⟩ := Option.isSome_iff_exists.mp numeric
    rw [limit_of_numericValue? there hthere depth exact hx, symbolic]

end Expr

end Tutor
