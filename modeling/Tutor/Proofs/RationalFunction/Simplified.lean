import Tutor.Proofs.RationalFunction.Height

/-!
The rational function of a simplified expression. Where a pass takes a part of an expression away, the
function stays: at all but finitely many points the simplified expression has the values of the function.
It has a function itself as long as its exponents are worked out, and they are no larger than the number
of nodes times the exponents of the expression.
-/

set_option autoImplicit false
set_option relaxedAutoImplicit false

namespace Tutor

open Filter

namespace Expr

variable {a b e : Expr} {v : String} {k : Int} {q : Rat}

private theorem poles_of_signedConst? (P : Place) (h : e.signedConst? = some q) : e.poles P = 0 :=
  signedConst?_induction (P := fun e _ => e.poles P = 0) (fun _ => rfl) (fun _ _ ih => ih) h

/-! ### Size -/

def nodeCount : Expr → Nat
  | .var _ | .const _ => 1
  | .add a b | .sub a b | .mul a b | .div a b | .pow a b => a.nodeCount + b.nodeCount + 1
  | .neg a | .sin a | .cos a | .tan a | .exp a | .log a => a.nodeCount + 1

/-- The product of `1 + |k|` over the exponents of all powers that are integers `k`. -/
def exponentProduct : Expr → Nat
  | .var _ | .const _ => 1
  | .add a b | .sub a b | .mul a b | .div a b => a.exponentProduct * b.exponentProduct
  | .pow a b =>
    a.exponentProduct * b.exponentProduct * ((b.signedInteger?.map fun k => 1 + k.natAbs).getD 1)
  | .neg a | .sin a | .cos a | .tan a | .exp a | .log a => a.exponentProduct

/-- The size of an expression: its nodes, each as often as all exponents together say. -/
def size (e : Expr) : Nat := e.nodeCount * e.exponentProduct

private theorem one_le_nodeCount (e : Expr) : 1 ≤ e.nodeCount := by
  cases e <;> simp [nodeCount]

theorem one_le_exponentProduct (e : Expr) : 1 ≤ e.exponentProduct := by
  induction e with
  | add a b iha ihb | sub a b iha ihb | mul a b iha ihb | div a b iha ihb => exact Nat.mul_le_mul iha ihb
  | pow a b iha ihb =>
    have exponent : 1 ≤ (b.signedInteger?.map fun k => 1 + k.natAbs).getD 1 := by
      cases b.signedInteger? with
      | none => exact le_rfl
      | some k => exact Nat.le_add_right 1 k.natAbs
    exact Nat.mul_le_mul (Nat.mul_le_mul iha ihb) exponent
  | var _ | const _ => exact le_rfl
  | neg a ih | sin a ih | cos a ih | tan a ih | exp a ih | log a ih => exact ih

theorem one_le_size (e : Expr) : 1 ≤ e.size :=
  Nat.mul_le_mul e.one_le_nodeCount e.one_le_exponentProduct

theorem size_parts_le (a b : Expr) :
    a.size + b.size + 1 ≤ (a.nodeCount + b.nodeCount + 1) * (a.exponentProduct * b.exponentProduct) := by
  have left : a.size ≤ a.nodeCount * (a.exponentProduct * b.exponentProduct) :=
    Nat.mul_le_mul_left _ (Nat.le_mul_of_pos_right _ b.one_le_exponentProduct)
  have right : b.size ≤ b.nodeCount * (a.exponentProduct * b.exponentProduct) :=
    Nat.mul_le_mul_left _ (Nat.le_mul_of_pos_left _ a.one_le_exponentProduct)
  have node : 1 ≤ a.exponentProduct * b.exponentProduct :=
    Nat.mul_le_mul a.one_le_exponentProduct b.one_le_exponentProduct
  rw [Nat.add_mul, Nat.add_mul, Nat.one_mul]
  omega

theorem size_neg_le (a : Expr) : a.size + 1 ≤ (Expr.neg a).size := by
  have := a.one_le_exponentProduct
  simp only [size, nodeCount, exponentProduct, Nat.add_mul, Nat.one_mul]
  omega

theorem size_pow_le (hk : b.signedInteger? = some k) :
    (1 + k.natAbs) * (a.size + 2) ≤ (Expr.pow a b).size := by
  have parts := size_parts_le a b
  have exponent := b.one_le_size
  have product : (Expr.pow a b).size =
      (1 + k.natAbs) * ((a.nodeCount + b.nodeCount + 1) * (a.exponentProduct * b.exponentProduct)) := by
    simp only [size, nodeCount, exponentProduct, hk, Option.map_some, Option.getD_some]
    ring
  rw [product]
  exact Nat.mul_le_mul_left _ (by omega)

end Expr

namespace RationalFunction

open Tutor.Expr (Denotes)

variable {f g h : RationalFunction} {e a b : Expr} {v : String} {ρ : String → ℝ}

/-! ### Values of the simplified expression -/

/-- A simplified expression has the values of the rational function of the expression at all but finitely
many points, also if the expression itself has no value there. The induction is on how the function came
about; divisors and bases of negative powers are other functions than zero. -/
theorem OfExpr.eventually_denotes_simplify (h : OfExpr v e f) (ρ : String → ℝ) :
    ∀ᶠ t in cofinite, Denotes (Function.update ρ v t) e.simplify (f.valueAt t) := by
  induction h with
  | @constant e c _ hc =>
    refine .of_forall fun t => ?_
    rw [(hasValue_ofPoly _ t).valueAt_eq, Poly.valueAt_const]
    exact Expr.denotes_signedConst? hc
  | var =>
    refine .of_forall fun t => ?_
    rw [(hasValue_ofPoly _ t).valueAt_eq, Poly.valueAt_x]
    exact ⟨trivial, by rw [Expr.simplify, Expr.evalAt, Function.update_self]⟩
  | add _ ha hb fits hh iha ihb =>
    filter_upwards [iha, ihb, ha.reduced.eventually_add hb.reduced fits hh] with t hat hbt value
    rw [value]
    exact Simplify.denotes_add hat hbt
  | sub _ ha hb fits hh iha ihb =>
    filter_upwards [iha, ihb, ha.reduced.eventually_sub hb.reduced fits hh] with t hat hbt value
    rw [value]
    exact Simplify.denotes_sub hat hbt
  | mul _ ha hb fits hh iha ihb =>
    filter_upwards [iha, ihb, ha.reduced.eventually_mul hb.reduced fits hh] with t hat hbt value
    rw [value]
    exact Simplify.denotes_mul hat hbt
  | div _ ha hb hi fits hh iha ihb =>
    filter_upwards [iha, ihb, ha.reduced.eventually_div hb.reduced hi fits hh] with t hat hbt quotient
    rw [quotient.2]
    exact Simplify.denotes_div hat hbt quotient.1
  | neg _ _ ih =>
    filter_upwards [ih] with t hat
    rw [valueAt_neg]
    exact Simplify.denotes_neg hat
  | @pow a b f _ k _ hk ha fits hh ih =>
    filter_upwards [ih, ha.reduced.eventually_power fits hh] with t hat both
    have power : PowerDefined (f.valueAt t) k := by
      rcases both.1 with h0 | nonneg
      · exact .int_of_ne_zero h0 k
      · exact .int_of_nonneg _ nonneg
    rw [both.2, ← Real.rpow_intCast]
    exact Simplify.denotes_pow hat (Expr.denotes_simplify (Expr.denotes_signedInteger? hk)) power

theorem OfExpr.eq_of_eventually {e' : Expr} {f' : RationalFunction} (hf : f.Reduced) (hf' : OfExpr v e' f')
    (ρ : String → ℝ)
    (same : ∀ᶠ t in cofinite, Denotes (Function.update ρ v t) e' (f.valueAt t)) : f' = f := by
  refine hf'.reduced.eq_of_eventually hf ?_
  filter_upwards [same] with t ht
  have value := hf'.hasValue ht
  rw [Function.update_self] at value
  exact value.valueAt_eq

/-! ### When a simplified expression has a function -/

theorem OfExpr.isRationalIn_simplify (h : OfExpr v e f) : e.simplify.IsRationalIn v := by
  have closed := Expr.hereditary_isRationalIn v
  induction h with
  | constant _ hc => exact (Expr.isRationalIn_of_signedConst? hc).1
  | var => rfl
  | add _ _ _ _ _ iha ihb => exact closed.add iha ihb
  | sub _ _ _ _ _ iha ihb => exact closed.sub iha ihb
  | mul _ _ _ _ _ iha ihb => exact closed.mul iha ihb
  | div _ _ _ _ _ _ iha ihb => exact closed.div iha ihb
  | neg _ _ ih => exact closed.neg ih
  | @pow a b _ _ k _ hk _ _ _ ih =>
    rw [Expr.simplify, Expr.simplify_of_signedInteger? hk]
    exact closed.raise ih ⟨k, rfl⟩

theorem OfExpr.baseWeight_simplify_le (h : OfExpr v e f) : e.simplify.baseWeight ≤ e.size := by
  induction h with
  | @constant e _ _ hc =>
    rw [(Expr.isRationalIn_of_signedConst? (v := v) hc).2]
    exact e.one_le_size
  | var => exact le_rfl
  | @add a b _ _ _ _ ha hb _ _ iha ihb =>
    have sum := Simplify.baseWeight_add_le_max ha.isRationalIn_simplify hb.isRationalIn_simplify
    refine le_trans ?_ (a.size_parts_le b)
    exact sum.trans (by omega)
  | @sub a b _ _ _ _ ha hb _ _ iha ihb =>
    have sum := Simplify.baseWeight_sub_le_max ha.isRationalIn_simplify hb.isRationalIn_simplify
    refine le_trans ?_ (a.size_parts_le b)
    exact sum.trans (by omega)
  | @mul a b _ _ _ _ ha hb _ _ iha ihb =>
    have product := Simplify.baseWeight_mul_le ha.isRationalIn_simplify hb.isRationalIn_simplify
    refine le_trans ?_ (a.size_parts_le b)
    exact product.trans (by omega)
  | @div a b _ _ _ _ _ ha hb _ _ _ iha ihb =>
    have quotient := Simplify.baseWeight_div_le ha.isRationalIn_simplify hb.isRationalIn_simplify
    refine le_trans ?_ (a.size_parts_le b)
    exact quotient.trans (by omega)
  | @neg a _ _ _ ih =>
    have := a.size_neg_le
    exact (Simplify.baseWeight_neg_le a.simplify).trans (by omega)
  | @pow a b _ _ k _ hk ha _ _ ih =>
    rw [Expr.simplify, Expr.simplify_of_signedInteger? hk]
    calc (Simplify.raise a.simplify k).baseWeight
        ≤ Expr.cost k * a.simplify.baseWeight := Simplify.baseWeight_raise_le ha.isRationalIn_simplify k
      _ ≤ (1 + k.natAbs) * (a.size + 2) := Nat.mul_le_mul (Expr.cost_le k) (by omega)
      _ ≤ (Expr.pow a b).size := Expr.size_pow_le hk

theorem OfExpr.regular_simplify (h : OfExpr v e f) : e.simplify.Regular v :=
  ⟨h.isRationalIn_simplify, (h.eventually_denotes_simplify _).mono fun _ ht => ht.defined⟩

theorem OfExpr.simplify_numer_ne_zero (h : OfExpr v e f) (h0 : f.numer.toPolynomial ≠ 0) :
    e.simplify.fraction.numer ≠ 0 := by
  refine h.regular_simplify.numer_ne_zero ?_
  filter_upwards [h.eventually_denotes_simplify fun _ => 0, h.reduced.eventually_ne_zero h0] with t ht nonzero
  rwa [ht.value]

theorem OfExpr.degreeLe_simplify (h : OfExpr v e f) : DegreeLe e.simplify.poles e.size := by
  induction h with
  | constant _ hc => exact DegreeLe.zero.mono fun P => (Expr.poles_of_signedConst? P hc).le
  | var => exact DegreeLe.poles_X
  | @add a b _ _ _ _ ha hb _ _ iha ihb =>
    exact (ha.regular_simplify.degreeLe_add hb.regular_simplify iha ihb).trans_le
      ((Nat.le_succ _).trans (a.size_parts_le b))
  | @sub a b _ _ _ _ ha hb _ _ iha ihb =>
    exact (ha.regular_simplify.degreeLe_sub hb.regular_simplify iha ihb).trans_le
      ((Nat.le_succ _).trans (a.size_parts_le b))
  | @mul a b _ _ _ _ ha hb _ _ iha ihb =>
    exact (ha.regular_simplify.degreeLe_mul hb.regular_simplify iha ihb).trans_le
      ((Nat.le_succ _).trans (a.size_parts_le b))
  | @div a b _ _ _ _ _ ha hb hi _ _ iha ihb =>
    have nonzero := hb.simplify_numer_ne_zero (numer_ne_zero_of_inverse? hi)
    exact (ha.regular_simplify.degreeLe_div hb.regular_simplify nonzero iha ihb).trans_le
      ((Nat.le_succ _).trans (a.size_parts_le b))
  | @neg a _ _ _ ih =>
    exact (ih.mono fun P => Simplify.divisor_neg_le P false _).trans_le
      ((Nat.le_succ _).trans a.size_neg_le)
  | @pow a b _ _ k _ hk ha fits hh ih =>
    have base := (numer_ne_zero_of_power? fits hh).imp_right ha.simplify_numer_ne_zero
    rw [Expr.simplify, Expr.simplify_of_signedInteger? hk]
    refine (ha.regular_simplify.degreeLe_raise base ih).trans_le (le_trans ?_ (Expr.size_pow_le hk))
    exact Nat.mul_le_mul (Nat.le_add_left _ _) (Nat.le_add_right _ _)

/-- An expression that is small enough has its function without a sum of powers that wraps around, and the
degrees are no larger than the expression. -/
theorem ofExpr_of_size_lt (h : ofExpr? v e = some f) (small : 2 * e.size < UInt64.size) :
    OfExpr v e f ∧ f.NatDegreeLe e.size := by
  induction h using ofExpr?_induction with
  | constant e c _ free hc =>
    refine ⟨.constant free hc, ?_, ?_⟩
    · rw [ofPoly, Poly.toPolynomial_const, Polynomial.natDegree_C]
      exact Nat.zero_le _
    · rw [ofPoly, Poly.toPolynomial_one, Polynomial.natDegree_one]
      exact Nat.zero_le _
  | var _ =>
    refine ⟨.var, ?_, ?_⟩
    · rw [ofPoly, Poly.toPolynomial_x, Polynomial.natDegree_X]
      exact Expr.one_le_size _
    · rw [ofPoly, Poly.toPolynomial_one, Polynomial.natDegree_one]
      exact Nat.zero_le _
  | add a b fa fb f _ ha hb hv hf iha ihb =>
    have size : a.size + b.size + 1 ≤ (Expr.add a b).size := a.size_parts_le b
    obtain ⟨ra, da⟩ := iha (by omega)
    obtain ⟨rb, db⟩ := ihb (by omega)
    have fits := da.sumFits db (by omega)
    exact ⟨.add hv ra rb fits hf, (da.add db fits hf).mono (by omega)⟩
  | sub a b fa fb f _ ha hb hv hf iha ihb =>
    have size : a.size + b.size + 1 ≤ (Expr.sub a b).size := a.size_parts_le b
    obtain ⟨ra, da⟩ := iha (by omega)
    obtain ⟨rb, db⟩ := ihb (by omega)
    have fits := da.sumFits db.neg (by omega)
    exact ⟨.sub hv ra rb fits hf, (da.add db.neg fits hf).mono (by omega)⟩
  | mul a b fa fb f _ ha hb hv hf iha ihb =>
    have size : a.size + b.size + 1 ≤ (Expr.mul a b).size := a.size_parts_le b
    obtain ⟨ra, da⟩ := iha (by omega)
    obtain ⟨rb, db⟩ := ihb (by omega)
    have fits := da.productFits db (by omega)
    exact ⟨.mul hv ra rb fits hf, (da.mul db fits hf).mono (by omega)⟩
  | div a b fa fb i f _ ha hb hv hi hf iha ihb =>
    have size : a.size + b.size + 1 ≤ (Expr.div a b).size := a.size_parts_le b
    obtain ⟨ra, da⟩ := iha (by omega)
    obtain ⟨rb, db⟩ := ihb (by omega)
    have fits := da.productFits (db.inverse hi) (by omega)
    exact ⟨.div hv ra rb hi fits hf, (da.mul (db.inverse hi) fits hf).mono (by omega)⟩
  | pow a b fa k f _ ha hv hk hf ih =>
    have size := Expr.size_pow_le (a := a) hk
    have counted : k.natAbs * a.size ≤ (1 + k.natAbs) * (a.size + 2) :=
      Nat.mul_le_mul (Nat.le_add_left _ _) (Nat.le_add_right _ _)
    have base := Nat.le_mul_of_pos_left (a.size + 2) (Nat.lt_add_right k.natAbs Nat.one_pos)
    obtain ⟨ra, da⟩ := ih (by omega)
    have fits := da.powerFits (k := k) (by omega)
    exact ⟨.pow hv hk ra fits hf, (da.power fits hf).mono (by omega)⟩
  | neg a fa _ ha hv ih =>
    have size := a.size_neg_le
    obtain ⟨ra, da⟩ := ih (by omega)
    exact ⟨.neg hv ra, da.neg.mono (by omega)⟩

end RationalFunction

end Tutor
