import Tutor.Proofs.Poly.OfExpr
import Tutor.Proofs.RationalFunction.LowestTerms
import Tutor.Proofs.RationalFunction.Simplified

/-!
Polynomials among the rational functions. A polynomial reads its divisors by simplifying them to constants,
a rational function by reading them as functions. Where both read a divisor, they agree, since the
simplified divisor has the values of its function if no sum of powers wraps around; so an expression with a
polynomial has the rational function with this numerator and the denominator one, unless a divisor above the
variable is simplified to a constant without being a rational function itself.
-/

set_option autoImplicit false
set_option relaxedAutoImplicit false

namespace Tutor

open Filter

namespace Expr

variable {b e : Expr} {v : String} {q : Rat}

def divisors : Expr → List Expr
  | .var _ | .const _ => []
  | .div a b => b :: (a.divisors ++ b.divisors)
  | .add a b | .sub a b | .mul a b | .pow a b => a.divisors ++ b.divisors
  | .neg a | .sin a | .cos a | .tan a | .exp a | .log a => a.divisors

/-- The divisors that stand in no other divisor and in no exponent. -/
def outerDivisors : Expr → List Expr
  | .div a b => b :: a.outerDivisors
  | .add a b | .sub a b | .mul a b => a.outerDivisors ++ b.outerDivisors
  | .pow a _ | .neg a => a.outerDivisors
  | _ => []

private theorem mentions_of_mem_divisors (hb : b ∈ e.divisors) (hv : b.mentions v = true) :
    e.mentions v = true := by
  induction e with
  | var _ | const _ => cases hb
  | add c d ihc ihd | sub c d ihc ihd | mul c d ihc ihd | pow c d ihc ihd =>
    rw [mentions, Bool.or_eq_true]
    exact (List.mem_append.mp hb).imp ihc ihd
  | div c d ihc ihd =>
    rw [mentions, Bool.or_eq_true]
    rcases List.mem_cons.mp hb with rfl | hb
    · exact .inr hv
    · exact (List.mem_append.mp hb).imp ihc ihd
  | neg c ih | sin c ih | cos c ih | tan c ih | exp c ih | log c ih => exact ih hb

private theorem outerDivisors_sublist (e : Expr) : e.outerDivisors.Sublist e.divisors := by
  induction e with
  | add c d ihc ihd | sub c d ihc ihd | mul c d ihc ihd => exact ihc.append ihd
  | div c d ihc _ => exact (ihc.trans (List.sublist_append_left _ _)).cons_cons d
  | pow c d ihc _ => exact ihc.trans (List.sublist_append_left _ _)
  | neg c ih => exact ih
  | _ => exact List.nil_sublist _

private theorem divisors_of_signedConst? (h : e.signedConst? = some q) : e.divisors = [] :=
  signedConst?_induction (P := fun e _ => e.divisors = []) (fun _ => rfl) (fun _ _ ih => ih) h

end Expr

namespace RationalFunction

variable {f : RationalFunction} {n d p q : Poly} {b e : Expr} {v : String} {c : Rat}

/-! ### Arithmetic with the denominator one -/

private theorem ofQuotient?_eq_ofPoly (hd : d.toPolynomial ≠ 0)
    (h : n.toPolynomial = p.toPolynomial * d.toPolynomial) : ofQuotient? n d = some (ofPoly p) := by
  refine (ofQuotient?_eq_some_iff (mt Poly.eq_zero_iff.mp hd)).mpr ⟨reduced_of_denom_eq_one rfl, ?_⟩
  rw [ofPoly, Poly.toPolynomial_one, mul_one, h]

private theorem mul_one_eq (p : Poly) : p * 1 = p := by
  apply Poly.toPolynomial_injective
  have word := Poly.natDegree_toPolynomial_lt p
  rw [Poly.toPolynomial_mul (by rwa [Poly.toPolynomial_one, Polynomial.natDegree_one]),
    Poly.toPolynomial_one, mul_one]

private theorem ofQuotient?_one (p : Poly) : ofQuotient? p 1 = some (ofPoly p) := by
  apply ofQuotient?_eq_ofPoly <;>
    simp only [Poly.toPolynomial_one, mul_one, ne_eq, one_ne_zero, not_false_eq_true]

private theorem add?_ofPoly (p q : Poly) : (ofPoly p).add? (ofPoly q) = some (ofPoly (p + q)) := by
  simp only [add?, ofPoly, mul_one_eq]
  exact ofQuotient?_one (p + q)

private theorem mul?_ofPoly (p q : Poly) : (ofPoly p).mul? (ofPoly q) = some (ofPoly (p * q)) := by
  simp only [mul?, ofPoly, mul_one_eq]
  exact ofQuotient?_one (p * q)

private theorem inverse?_ofPoly_const (hc : c ≠ 0) :
    (ofPoly (.const c)).inverse? = some (ofPoly (.const (1 / c))) := by
  apply ofQuotient?_eq_ofPoly
  · rw [ofPoly, Poly.toPolynomial_const]
    exact Polynomial.C_ne_zero.mpr hc
  · rw [ofPoly, Poly.toPolynomial_const, Poly.toPolynomial_const, ← map_mul, one_div_mul_cancel hc,
      map_one, Poly.toPolynomial_one]

private theorem power?_ofPoly {k : Int} {m : Nat} (nonneg : 0 ≤ k) (hm : Expr.exponentSize? k = some m) :
    (ofPoly p).power? k = some (ofPoly (p.power m)) := by
  have one : Poly.power 1 m = 1 := by
    apply Poly.toPolynomial_injective
    have word : 0 < UInt64.size := by decide
    rw [Poly.toPolynomial_power (by rwa [Poly.toPolynomial_one, Polynomial.natDegree_one, Nat.mul_zero]),
      Poly.toPolynomial_one, one_pow]
  rw [power?, hm]
  simp only [ofPoly, one, Option.bind_eq_bind, Option.bind_some, if_neg (not_lt.mpr nonneg)]
  rw [ofQuotient?_one]
  rfl

private theorem mul_const (p : Poly) (c : Rat) : p * .const c = p.scale c := by
  apply Poly.toPolynomial_injective
  have word := Poly.natDegree_toPolynomial_lt p
  rw [Poly.toPolynomial_mul (by rwa [Poly.toPolynomial_const, Polynomial.natDegree_C]),
    Poly.toPolynomial_const, Poly.toPolynomial_scale]

/-! ### Divisors -/

private theorem OfExpr.eq_ofPoly_const (hf : OfExpr v e f) (hc : e.constantValue? = some c) :
    f = ofPoly (.const c) := by
  refine hf.reduced.eq_of_eventually (reduced_of_denom_eq_one rfl) ?_
  filter_upwards [hf.eventually_denotes_simplify fun _ => 0] with t ht
  have constant := Expr.denotes_signedConst? (ρ := Function.update (fun _ => 0) v t) hc
  rw [← ht.value, constant.value, (hasValue_ofPoly _ t).valueAt_eq, Poly.valueAt_const]

/-- All divisors in which the variable occurs are rational functions. -/
def DivisorsRational (v : String) (e : Expr) : Prop :=
  ∀ b ∈ e.divisors, b.mentions v = true → ∃ g, ofExpr? v b = some g

private theorem divisorsRational_of_ofExpr? (hf : ofExpr? v e = some f) : DivisorsRational v e := by
  induction hf using ofExpr?_induction with
  | constant e c _ free _ =>
    intro b hb hv
    rw [Expr.mentions_of_mem_divisors hb hv] at free
    cases free
  | var _ => exact List.forall_mem_nil _
  | add _ _ _ _ _ _ _ _ _ _ iha ihb | sub _ _ _ _ _ _ _ _ _ _ iha ihb | mul _ _ _ _ _ _ _ _ _ _ iha ihb =>
    exact List.forall_mem_append.mpr ⟨iha, ihb⟩
  | div _ _ _ fb _ _ _ _ hb _ _ _ iha ihb =>
    exact List.forall_mem_cons.mpr ⟨fun _ => ⟨fb, hb⟩, List.forall_mem_append.mpr ⟨iha, ihb⟩⟩
  | pow a b _ _ _ _ _ _ hk _ iha =>
    have exponent : b.divisors = [] :=
      Expr.divisors_of_signedConst? (Expr.signedConst?_of_signedInteger? hk)
    exact List.forall_mem_append.mpr ⟨iha, exponent ▸ List.forall_mem_nil _⟩
  | neg _ _ _ _ _ ih => exact ih

private theorem ofExpr?_divisor (hc : b.constantValue? = some c) (fits : ofExprFits v b = true)
    (hb : b.mentions v = true → ∃ g, ofExpr? v b = some g) :
    ofExpr? v b = some (ofPoly (.const c)) := by
  by_cases hv : b.mentions v = true
  · obtain ⟨g, hg⟩ := hb hv
    rw [hg, (ofExpr_of_eq_some hg fits).eq_ofPoly_const hc]
  · rw [ofExpr?.eq_def, if_pos (Bool.eq_false_of_not_eq_true hv), hc]
    rfl

/-- An expression with a polynomial is read as this polynomial if its divisors are read as the constants to
which they are simplified, also where sums of powers wrap around. -/
theorem ofExpr?_eq_ofPoly (hp : Poly.OfExpr v e p) (hd : ∀ b ∈ e.outerDivisors, ∀ c,
    b.constantValue? = some c → ofExpr? v b = some (ofPoly (.const c))) :
    ofExpr? v e = some (ofPoly p) := by
  induction hp with
  | constant free hc =>
    rw [ofExpr?.eq_def, if_pos free, hc]
    rfl
  | var =>
    rw [ofExpr?, if_neg (by simp [Expr.mentions])]
  | @add a b p q hv _ _ iha ihb =>
    obtain ⟨hda, hdb⟩ := List.forall_mem_append.mp hd
    rw [ofExpr?, if_neg hv, iha hda, ihb hdb]
    exact add?_ofPoly p q
  | @sub a b p q hv _ _ iha ihb =>
    obtain ⟨hda, hdb⟩ := List.forall_mem_append.mp hd
    rw [ofExpr?, if_neg hv, iha hda, ihb hdb]
    exact add?_ofPoly p (-q)
  | @mul a b p q hv _ _ iha ihb =>
    obtain ⟨hda, hdb⟩ := List.forall_mem_append.mp hd
    rw [ofExpr?, if_neg hv, iha hda, ihb hdb]
    exact mul?_ofPoly p q
  | @div a b p c hv _ hc nonzero iha =>
    obtain ⟨divisor, parts⟩ := List.forall_mem_cons.mp hd
    rw [ofExpr?, if_neg hv, iha parts, divisor c hc, ← mul_const]
    simp only [Option.bind_eq_bind, Option.bind_some, inverse?_ofPoly_const nonzero]
    exact mul?_ofPoly p _
  | neg hv _ ih =>
    rw [ofExpr?, if_neg hv, ih hd]
    rfl
  | pow hv _ hk nonneg hm ih =>
    rw [ofExpr?, if_neg hv, hk, ih hd]
    exact power?_ofPoly nonneg hm

private theorem productFits_one (p : Poly) : p.productFits 1 = true := by
  rw [Poly.productFits_iff, Poly.toPolynomial_one, Polynomial.natDegree_one]
  exact Poly.natDegree_toPolynomial_lt p

private theorem powerFits_one (n : Nat) : Poly.powerFits 1 n = true := by
  rw [Poly.powerFits_iff, Poly.toPolynomial_one, Polynomial.natDegree_one, Nat.mul_zero]
  decide

private theorem sumFits_ofPoly (p q : Poly) : (ofPoly p).sumFits (ofPoly q) = true :=
  sumFits_iff.mpr ⟨productFits_one p, productFits_one q, productFits_one 1⟩

private theorem productFits_ofPoly (p q : Poly) : (ofPoly p).productFits (ofPoly q) = p.productFits q := by
  rw [productFits, ofPoly, ofPoly, productFits_one, Bool.and_true]

/-- Without divisors the same sums of powers are formed for the polynomial and for the rational function of an
expression. -/
theorem ofExprFits_eq (hp : Poly.OfExpr v e p) (hd : e.outerDivisors = []) :
    ofExprFits v e = Poly.ofExprFits v e := by
  have reading {a : Expr} {p : Poly} (ha : Poly.OfExpr v a p) (none : a.outerDivisors = []) :
      ofExpr? v a = some (ofPoly p) :=
    ofExpr?_eq_ofPoly ha (none ▸ List.forall_mem_nil _)
  induction hp with
  | constant free _ => rw [ofExprFits.eq_def, Poly.ofExprFits.eq_def, if_pos free, if_pos free]
  | var => simp [ofExprFits, Poly.ofExprFits]
  | @add a b p q hv ha hb iha ihb =>
    obtain ⟨left, right⟩ := List.append_eq_nil_iff.mp hd
    rw [ofExprFits, Poly.ofExprFits, if_neg hv, if_neg hv, iha left, ihb right, reading ha left,
      reading hb right, ha.eq_some, Option.all_some, Option.all_some, Option.all_some, sumFits_ofPoly,
      Bool.and_true]
  | @sub a b p q hv ha hb iha ihb =>
    obtain ⟨left, right⟩ := List.append_eq_nil_iff.mp hd
    have fits : (ofPoly p).sumFits (ofPoly q).neg = true := sumFits_ofPoly p (-q)
    rw [ofExprFits, Poly.ofExprFits, if_neg hv, if_neg hv, iha left, ihb right, reading ha left,
      reading hb right, ha.eq_some, Option.all_some, Option.all_some, Option.all_some, fits, Bool.and_true]
  | @mul a b p q hv ha hb iha ihb =>
    obtain ⟨left, right⟩ := List.append_eq_nil_iff.mp hd
    rw [ofExprFits, Poly.ofExprFits, if_neg hv, if_neg hv, iha left, ihb right, reading ha left,
      reading hb right, ha.eq_some, hb.eq_some]
    simp only [Option.all_some, productFits_ofPoly]
  | div => cases hd
  | neg hv _ ih => rw [ofExprFits, Poly.ofExprFits, if_neg hv, if_neg hv, ih hd]
  | pow hv ha hk nonneg hm ih =>
    rw [ofExprFits, Poly.ofExprFits, if_neg hv, if_neg hv, hk, ih hd, reading ha hd, ha.eq_some]
    simp only [Option.all_some, powerFits, hm, ofPoly, powerFits_one, Bool.and_true,
      decide_eq_false (not_lt.mpr nonneg), Bool.false_or]

/-- Divisors that are rational functions are read as constants. The parts are read from left to right, so it
is known of a divisor that no sum of powers wraps around in it once what stands before it has been read. -/
private theorem ofExpr?_divisors (hp : Poly.OfExpr v e p) (fits : ofExprFits v e = true)
    (hd : DivisorsRational v e) : ∀ b ∈ e.outerDivisors, ∀ c,
      b.constantValue? = some c → ofExpr? v b = some (ofPoly (.const c)) := by
  induction hp with
  | @constant e _ free _ =>
    intro b hb c hc
    have absent : b.mentions v = false := by
      by_contra present
      rw [Bool.not_eq_false] at present
      rw [Expr.mentions_of_mem_divisors (e.outerDivisors_sublist.subset hb) present] at free
      cases free
    rw [ofExpr?.eq_def, if_pos absent, hc, Option.map_some]
  | var => exact List.forall_mem_nil _
  | add hv ha _ iha ihb | sub hv ha _ iha ihb | mul hv ha _ iha ihb =>
    obtain ⟨hda, hdb⟩ := List.forall_mem_append.mp hd
    rw [ofExprFits, if_neg hv, Bool.and_eq_true] at fits
    have left := iha fits.1 hda
    simp only [ofExpr?_eq_ofPoly ha left, Option.all_some, Bool.and_eq_true] at fits
    exact List.forall_mem_append.mpr ⟨left, ihb fits.2.1 hdb⟩
  | div hv ha _ _ iha =>
    obtain ⟨divisor, parts⟩ := List.forall_mem_cons.mp hd
    rw [ofExprFits, if_neg hv, Bool.and_eq_true] at fits
    have left := iha fits.1 (List.forall_mem_append.mp parts).1
    simp only [ofExpr?_eq_ofPoly ha left, Option.all_some, Bool.and_eq_true] at fits
    exact List.forall_mem_cons.mpr ⟨fun c hc => ofExpr?_divisor hc fits.2.1 divisor, left⟩
  | neg hv _ ih =>
    rw [ofExprFits, if_neg hv] at fits
    exact ih fits hd
  | pow hv _ hk _ _ ih =>
    rw [ofExprFits, if_neg hv, hk, Option.all_some, Bool.and_eq_true] at fits
    exact ih fits.1 (List.forall_mem_append.mp hd).1

/-- An expression with a polynomial has no other rational function than this polynomial over one, and it has
this one exactly if all divisors in which the variable occurs are rational functions themselves; that is, if
no sum of powers wraps around while the rational function is read. -/
theorem ofExpr?_of_polynomial (hp : Poly.ofExpr? v e = some p) (fits : ofExprFits v e = true) :
    (∀ f, ofExpr? v e = some f → f = ⟨p, 1⟩) ∧
      (ofExpr? v e = some ⟨p, 1⟩ ↔
        ∀ b ∈ e.divisors, b.mentions v = true → ∃ g, ofExpr? v b = some g) := by
  have polynomial := Poly.ofExpr_of_eq_some hp
  have reading (hd : DivisorsRational v e) : ofExpr? v e = some ⟨p, 1⟩ :=
    ofExpr?_eq_ofPoly polynomial (ofExpr?_divisors polynomial fits hd)
  refine ⟨?_, divisorsRational_of_ofExpr?, reading⟩
  intro f hf
  exact Option.some.inj (hf.symm.trans (reading (divisorsRational_of_ofExpr? hf)))

/-- A divisor that mentions the variable and is constant: `(x ^ 3 - 1) / (x / x + 1)` is half of
`x ^ 3 - 1`. -/
theorem ofExpr?_of_polynomial_constant_divisor :
    let x : Expr := .var "x"
    let e : Expr := .div (.sub (.pow x (.const 3)) .one) (.add (.div x x) .one)
    let p : Poly := .ofCoeffs [-1 / 2, 0, 0, 1 / 2]
    Poly.ofExpr? "x" e = some p ∧ ofExprFits "x" e = true ∧ ofExpr? "x" e = some ⟨p, 1⟩ := by
  intro x e p
  have polynomial : Poly.ofExpr? "x" e = some p := by decide +kernel
  have fits : ofExprFits "x" e = true := by decide +kernel
  refine ⟨polynomial, fits, (ofExpr?_of_polynomial polynomial fits).2.mpr ?_⟩
  have sum : ofExpr? "x" (.add (.div x x) .one) = some ⟨.const 2, 1⟩ := by decide +kernel
  have inner : ofExpr? "x" x = some ⟨.x, 1⟩ := by decide +kernel
  exact List.forall_mem_cons.mpr ⟨fun _ => ⟨_, sum⟩, List.forall_mem_cons.mpr
    ⟨fun _ => ⟨_, inner⟩, List.forall_mem_nil _⟩⟩

/-- The divisor of `x / (sin(x) - sin(x) + 2)` is simplified to the constant 2, which gives the polynomial
`x / 2`; but it is no rational function, and so the quotient is none either. -/
theorem polynomial_without_rationalFunction :
    let x : Expr := .var "x"
    let e : Expr := .div x (.add (.sub (.sin x) (.sin x)) (.const 2))
    Poly.ofExpr? "x" e = some (.monomial 1 (1 / 2)) ∧ ofExpr? "x" e = none := by
  decide +kernel

end RationalFunction

end Tutor
