import Tutor.Proofs.Calculus.Derivative
import Tutor.Proofs.RationalFunction.Simplified

/-!
The derivative of a rational function. At all but finitely many points the symbolic derivative of an
expression has the value that the quotient rule gives for the reduced function of the expression, whatever
cancels on either side; so both derivatives are the same rational function.
-/

set_option autoImplicit false
set_option relaxedAutoImplicit false

namespace Tutor

open Filter Topology
open Tutor.Expr (Denotes derivative)

private theorem eventually_cofinite_nhds {P : ℝ → Prop} (h : ∀ᶠ t in cofinite, P t) :
    ∀ᶠ t in cofinite, ∀ᶠ s in 𝓝 t, P s := by
  have closed : IsClosed {t | ¬P t} := Set.Finite.isClosed h
  filter_upwards [h] with t ht
  filter_upwards [closed.isOpen_compl.mem_nhds (not_not.mpr ht)] with s hs
  exact not_not.mp hs

namespace Poly

private theorem valueAt_sub (p q : Poly) (t : ℝ) : (p - q).valueAt t = p.valueAt t - q.valueAt t := by
  simp only [← aeval_toPolynomial, toPolynomial_sub, map_sub]

private theorem hasDerivAt_valueAt (p : Poly) (t : ℝ) : HasDerivAt p.valueAt (p.derivative.valueAt t) t := by
  have derivative := Polynomial.hasDerivAt_aeval p.toPolynomial t
  rw [← toPolynomial_derivative, aeval_toPolynomial] at derivative
  simpa only [aeval_toPolynomial] using derivative

end Poly

namespace RationalFunction

variable {f g h : RationalFunction} {t : ℝ}

/-! ### Slopes -/

/-- The slope of a rational function by the rule for quotients, at a point that is no pole. -/
noncomputable def slopeAt (f : RationalFunction) (t : ℝ) : ℝ :=
  (f.numer.derivative.valueAt t * f.denom.valueAt t - f.numer.valueAt t * f.denom.derivative.valueAt t) /
    f.denom.valueAt t ^ 2

private theorem Reduced.eventually_hasDerivAt (hf : f.Reduced) :
    ∀ᶠ t in cofinite, HasDerivAt f.valueAt (f.slopeAt t) t := by
  filter_upwards [hf.eventually_hasValue] with t value
  exact (f.numer.hasDerivAt_valueAt t).div (f.denom.hasDerivAt_valueAt t) value.denom_ne_zero

private theorem Reduced.eventually_slopeAt_eq (hh : h.Reduced) {F G : ℝ → ℝ}
    (values : ∀ᶠ t in cofinite, h.valueAt t = F t)
    (slopes : ∀ᶠ t in cofinite, HasDerivAt F (G t) t) : ∀ᶠ t in cofinite, h.slopeAt t = G t := by
  filter_upwards [hh.eventually_hasDerivAt, eventually_cofinite_nhds values, slopes]
    with t slope near slope'
  exact slope.unique (slope'.congr_of_eventuallyEq near)

private theorem eventually_valueAt_quotientRule (hf : f.Reduced) (fits : f.quotientRuleFits = true)
    (hg : ofQuotient? (f.numer.derivative * f.denom - f.numer * f.denom.derivative)
      (f.denom * f.denom) = some g) : ∀ᶠ t in cofinite, g.valueAt t = f.slopeAt t := by
  rw [quotientRuleFits, Bool.and_eq_true, Bool.and_eq_true] at fits
  obtain ⟨⟨numer, denom⟩, square⟩ := fits
  filter_upwards [hf.eventually_hasValue] with t value
  have h0 := value.denom_ne_zero
  refine (hasValue_ofQuotient? hg ?_ ?_).valueAt_eq
  · rw [Poly.valueAt_mul _ _ _ square]
    exact mul_ne_zero h0 h0
  · rw [slopeAt, Poly.valueAt_sub, Poly.valueAt_mul _ _ _ numer, Poly.valueAt_mul _ _ _ denom,
      Poly.valueAt_mul _ _ _ square, ← sq, div_mul_cancel₀ _ (pow_ne_zero 2 h0)]

end RationalFunction

namespace Simplify

variable {ρ : String → ℝ} {x : Expr} {a : ℝ} {v : String}

/-- The expression itself, the base of the power that it is, the base of the power that this is. -/
inductive InnerBase (b : Expr) : Expr → Prop
  | self : InnerBase b b
  | pow {x : Expr} (k : Rat) (h : InnerBase b x) : InnerBase b (.pow x (.const k))

private theorem InnerBase.exists_denotes {b : Expr} (h : InnerBase b x) (hx : Denotes ρ x a) :
    ∃ r, Denotes ρ b r := by
  induction h generalizing a with
  | self => exact ⟨a, hx⟩
  | pow k _ ih =>
    obtain ⟨r, hr, -, -⟩ := Expr.denotes_pow_const.mp hx
    exact ih hr

theorem InnerBase.baseWeight_le {b : Expr} (h : InnerBase b x) (hx : x.IsRationalIn v) :
    b.IsRationalIn v ∧ b.baseWeight ≤ x.baseWeight := by
  induction h with
  | self => exact ⟨hx, le_rfl⟩
  | @pow x k _ ih =>
    obtain ⟨rational, bound⟩ := ih hx.1
    have outer := (Expr.pow x (.const k)).weight_false_le_baseWeight
    have counted := Nat.le_mul_of_pos_left x.baseWeight (Expr.const k).one_le_exponentCost
    rw [Expr.weight_pow] at outer
    exact ⟨rational, by omega⟩

private theorem InnerBase.regular {b : Expr} (h : InnerBase b x) (hx : x.Regular v) : b.Regular v := by
  induction h with
  | self => exact hx
  | pow k _ ih =>
    obtain ⟨-, j, hj⟩ := hx.rational
    obtain rfl := Expr.const.inj hj
    exact ih hx.pow.1

private theorem InnerBase.degreeLe {b : Expr} {m : Nat} (h : InnerBase b x) (hx : x.Regular v)
    (hm : DegreeLe x.poles m) : DegreeLe b.poles m := by
  induction h generalizing m with
  | self => exact hm
  | pow k _ ih =>
    obtain ⟨-, j, hj⟩ := hx.rational
    obtain rfl := Expr.const.inj hj
    obtain ⟨n, mn, n_le, -⟩ := hx.degreeLe_base hm
    exact (ih hx.pow.1 mn).trans_le n_le

/-- Zero times a power is worked out without a look at the power, unless that is a sum; and a power is a
sum only if raising has come down to an inner base. -/
private theorem zero_mul_raise_cases (x : Expr) (q : Rat) :
    mul (.const 0) (raise x q) = .zero ∨ InnerBase (raise x q) x := by
  have plain {y : Expr} (h : ∀ b c, y ≠ .add b c ∧ y ≠ .sub b c) : mul (.const 0) y = .zero := by
    cases y with
    | add b c => exact absurd rfl (h b c).1
    | sub b c => exact absurd rfl (h b c).2
    | const p => exact congrArg Expr.const (zero_mul p)
    | _ => rfl
  fun_induction raise x q with
  | case1 x => exact .inl (plain (by simp [Expr.one]))
  | case2 x _ => exact .inr .self
  | case3 q _ _ b =>
    simp only [constPow]
    split_ifs
    · split <;> exact .inl (plain (by simp))
    · split
      · split <;> exact .inl (plain (by simp))
      · exact .inl (plain (by simp))
    · exact .inl (plain (by simp))
  | case4 q _ _ base k _ ih => exact ih.imp_right (.pow k)
  | case5 q _ _ base k _ => exact .inl (plain (by simp))
  | case6 x q _ _ _ _ => exact .inl (plain (by simp))

/-- Zero times a power is zero wherever the base is defined, also where the power is not. -/
private theorem denotes_zero_mul_raise (hx : Denotes ρ x a) (q : Rat) :
    Denotes ρ (mul (.const 0) (raise x q)) 0 := by
  rcases zero_mul_raise_cases x q with zero | inner
  · rw [zero]
    exact Expr.denotes_zero
  · obtain ⟨r, hr⟩ := inner.exists_denotes hx
    have product := denotes_mul (Expr.denotes_const 0) hr
    rwa [Rat.cast_zero, zero_mul] at product

private theorem baseWeight_zero_mul_raise_le (hx : x.IsRationalIn v) (q : Rat) :
    (mul (.const 0) (raise x q)).baseWeight ≤ x.baseWeight := by
  rcases zero_mul_raise_cases x q with zero | inner
  · rw [zero]
    exact x.one_le_baseWeight
  · obtain ⟨rational, bound⟩ := inner.baseWeight_le hx
    have product := productWeight_product ((Expr.hereditary_isRationalIn v).const 0) rational
    unfold ProductWeight at product
    rw [Expr.weight_const_false, Expr.weight_const_true] at product
    unfold Expr.baseWeight at bound ⊢
    omega

/-- The power with a lowered exponent times the exponent, wherever the power is defined: if the exponent
is zero, the lowered power may have no value, but then it does not count. -/
private theorem denotes_mul_raise_pred {k : Int} (hx : Denotes ρ x a) (h : a ≠ 0 ∨ 0 ≤ k) :
    Denotes ρ (mul (.const k) (raise x ((k - 1 : Int) : Rat))) (k * a ^ (k - 1)) := by
  rcases eq_or_ne k 0 with rfl | hk
  · rw [Int.cast_zero, Int.cast_zero, zero_mul]
    exact denotes_zero_mul_raise hx _
  · have power : PowerDefined a ((k - 1 : Int) : Rat) := by
      rw [Rat.cast_intCast]
      rcases h with h0 | nonneg
      · exact .int_of_ne_zero h0 _
      · exact .int_of_nonneg a (by omega)
    have raised := denotes_raise hx power
    rw [Rat.cast_intCast, Real.rpow_intCast] at raised
    have product := denotes_mul (Expr.denotes_const k) raised
    rwa [Rat.cast_intCast] at product

end Simplify

namespace Expr

variable {a b e da db : Expr} {v : String} {k : Int} {q : Rat}

private theorem mentions_of_signedConst? (h : e.signedConst? = some q) : e.mentions v = false :=
  signedConst?_induction (P := fun e _ => e.mentions v = false) (fun _ => rfl) (fun _ _ ih => ih) h

private theorem powerRule_of_signedInteger? (hk : b.signedInteger? = some k) :
    powerRule v a b da db =
      Simplify.mul (Simplify.mul (.const k) (Simplify.raise a.simplify ((k - 1 : Int) : Rat)))
        da.simplify := by
  have free : b.mentions v = false := mentions_of_signedConst? (signedConst?_of_signedInteger? hk)
  have lowered : (Expr.sub b .one).simplify = .const ((k - 1 : Int) : Rat) := by
    rw [simplify, simplify_of_signedInteger? hk]
    refine (Simplify.add_const k (-1)).trans ?_
    rw [← sub_eq_add_neg, Int.cast_sub, Int.cast_one]
  rw [powerRule, if_neg (by simp [free]), lowered]
  simp only [simplify, simplify_of_signedInteger? hk]
  rfl

end Expr

namespace RationalFunction

variable {e : Expr} {v : String} {f : RationalFunction}

/-! ### The derivative of an expression -/

/-- At all but finitely many points the symbolic derivative denotes the slope of the rational function of
the expression. The rules see the parts of the expression simplified, and these have the values of their
functions even where the parts themselves have none. -/
private theorem OfExpr.eventually_denotes_derivative (ρ : String → ℝ) (h : OfExpr v e f) :
    ∀ᶠ t in cofinite, Denotes (Function.update ρ v t) (derivative v e) (f.slopeAt t) := by
  induction h with
  | @constant e c hv _ =>
    have slopes := (reduced_of_denom_eq_one (f := ofPoly (.const c)) rfl).eventually_slopeAt_eq
      (F := fun _ => (c : ℝ)) (G := fun _ => 0)
      (.of_forall fun t => (hasValue_ofPoly _ t).valueAt_eq.trans (Poly.valueAt_const t c))
      (.of_forall fun t => hasDerivAt_const t (c : ℝ))
    filter_upwards [slopes] with t slope
    rw [Expr.derivative_of_not_mentions hv, slope]
    exact Expr.denotes_zero
  | var =>
    have slopes := (reduced_of_denom_eq_one (f := ofPoly .x) rfl).eventually_slopeAt_eq
      (F := fun t => t) (G := fun _ => 1)
      (.of_forall fun t => (hasValue_ofPoly _ t).valueAt_eq.trans (Poly.valueAt_x t))
      (.of_forall fun t => hasDerivAt_id' t)
    filter_upwards [slopes] with t slope
    rw [derivative, if_neg (by simp [Expr.mentions]), slope]
    exact Expr.denotes_one
  | add hv ha hb fits hh hda hdb =>
    have slopes := (OfExpr.add hv ha hb fits hh).reduced.eventually_slopeAt_eq
      (ha.reduced.eventually_add hb.reduced fits hh)
      ((ha.reduced.eventually_hasDerivAt.and hb.reduced.eventually_hasDerivAt).mono
        fun t both => both.1.add both.2)
    filter_upwards [slopes, hda, hdb] with t slope hda hdb
    rw [derivative, if_neg hv, slope]
    exact Simplify.denotes_add hda hdb
  | sub hv ha hb fits hh hda hdb =>
    have slopes := (OfExpr.sub hv ha hb fits hh).reduced.eventually_slopeAt_eq
      (ha.reduced.eventually_sub hb.reduced fits hh)
      ((ha.reduced.eventually_hasDerivAt.and hb.reduced.eventually_hasDerivAt).mono
        fun t both => both.1.sub both.2)
    filter_upwards [slopes, hda, hdb] with t slope hda hdb
    rw [derivative, if_neg hv, slope]
    exact Simplify.denotes_sub hda hdb
  | mul hv ha hb fits hh hda hdb =>
    have slopes := (OfExpr.mul hv ha hb fits hh).reduced.eventually_slopeAt_eq
      (ha.reduced.eventually_mul hb.reduced fits hh)
      ((ha.reduced.eventually_hasDerivAt.and hb.reduced.eventually_hasDerivAt).mono
        fun t both => both.1.mul both.2)
    filter_upwards [slopes, hda, hdb, ha.eventually_denotes_simplify ρ,
      hb.eventually_denotes_simplify ρ] with t slope hda hdb hat hbt
    rw [derivative, if_neg hv, slope]
    exact Simplify.denotes_add (Simplify.denotes_mul (Expr.denotes_simplify hda) hbt)
      (Simplify.denotes_mul hat (Expr.denotes_simplify hdb))
  | @div a b f g i h hv ha hb hi fits hh hda hdb =>
    have quotient := ha.reduced.eventually_div hb.reduced hi fits hh
    have slopes := (OfExpr.div hv ha hb hi fits hh).reduced.eventually_slopeAt_eq
      (quotient.mono fun t both => both.2)
      (((ha.reduced.eventually_hasDerivAt.and hb.reduced.eventually_hasDerivAt).and quotient).mono
        fun t all => all.1.1.div all.1.2 all.2.1)
    filter_upwards [slopes, quotient, hda, hdb, ha.eventually_denotes_simplify ρ,
      hb.eventually_denotes_simplify ρ] with t slope quotient hda hdb hat hbt
    have free (hbv : b.mentions v = false) : g.slopeAt t = 0 := by
      rw [Expr.derivative_of_not_mentions hbv] at hdb
      exact hdb.value.symm.trans Expr.denotes_zero.value
    have rule := Expr.denotes_quotientRule_of_simplified hat hbt hda hdb quotient.1 free
    rw [Real.rpow_two] at rule
    rw [derivative, if_neg hv, slope]
    exact rule
  | @neg a f hv ha hda =>
    have slopes := (OfExpr.neg hv ha).reduced.eventually_slopeAt_eq
      (.of_forall fun t => valueAt_neg f t)
      (ha.reduced.eventually_hasDerivAt.mono fun t slope => slope.neg)
    filter_upwards [slopes, hda] with t slope hda
    rw [derivative, if_neg hv, slope]
    exact Simplify.denotes_neg (Expr.denotes_simplify hda)
  | @pow a b f h k hv hk ha fits hh hda =>
    have power := ha.reduced.eventually_power fits hh
    have slopes := (OfExpr.pow hv hk ha fits hh).reduced.eventually_slopeAt_eq
      (power.mono fun t both => both.2)
      ((ha.reduced.eventually_hasDerivAt.and power).mono
        fun t both => (hasDerivAt_zpow k _ both.2.1).comp t both.1)
    filter_upwards [slopes, power, hda, ha.eventually_denotes_simplify ρ] with t slope power hda hat
    rw [derivative, if_neg hv, slope, Expr.powerRule_of_signedInteger? hk]
    exact Simplify.denotes_mul (Simplify.denotes_mul_raise_pred hat power.1) (Expr.denotes_simplify hda)

section Rules

variable {a b da db : Expr}

private theorem isRationalIn_productRule_and_baseWeight_le (ha : a.simplify.IsRationalIn v)
    (hb : b.simplify.IsRationalIn v) (hda : da.IsRationalIn v) (hdb : db.IsRationalIn v) :
    (Expr.productRule a b da db).IsRationalIn v ∧
      (Expr.productRule a b da db).baseWeight ≤
        max (da.baseWeight + b.simplify.baseWeight) (a.simplify.baseWeight + db.baseWeight) := by
  have closed := Expr.hereditary_isRationalIn v
  have hda' := Expr.isRationalIn_simplify hda
  have hdb' := Expr.isRationalIn_simplify hdb
  have left := Simplify.baseWeight_mul_le hda' hb
  have right := Simplify.baseWeight_mul_le ha hdb'
  have lighter := (Simplify.lighter_simplify hda).baseWeight_le
  have lighter' := (Simplify.lighter_simplify hdb).baseWeight_le
  have sum := Simplify.baseWeight_add_le_max (closed.mul hda' hb) (closed.mul ha hdb')
  refine ⟨closed.add (closed.mul hda' hb) (closed.mul ha hdb'), ?_⟩
  change (Simplify.add _ _).baseWeight ≤ _
  exact sum.trans (by omega)

private theorem isRationalIn_quotientRule_and_baseWeight_le (ha : a.simplify.IsRationalIn v)
    (hb : b.simplify.IsRationalIn v) (hda : da.IsRationalIn v) (hdb : db.IsRationalIn v) :
    (Expr.quotientRule v a b da db).IsRationalIn v ∧
      (Expr.quotientRule v a b da db).baseWeight ≤
        max (da.baseWeight + b.simplify.baseWeight)
          (max (a.simplify.baseWeight + db.baseWeight) (2 * b.simplify.baseWeight)) := by
  have closed := Expr.hereditary_isRationalIn v
  have hda' := Expr.isRationalIn_simplify hda
  have hdb' := Expr.isRationalIn_simplify hdb
  have lighter := (Simplify.lighter_simplify hda).baseWeight_le
  have lighter' := (Simplify.lighter_simplify hdb).baseWeight_le
  rw [Expr.quotientRule]
  split_ifs
  · have left := Simplify.baseWeight_mul_le hda' hb
    have right := Simplify.baseWeight_mul_le ha hdb'
    have difference := Simplify.baseWeight_sub_le_max (closed.mul hda' hb) (closed.mul ha hdb')
    have square : (Simplify.raise b.simplify 2).baseWeight ≤ 2 * b.simplify.baseWeight :=
      Simplify.baseWeight_raise_le hb 2
    have rational : (Simplify.raise b.simplify 2).IsRationalIn v := closed.raise hb ⟨2, rfl⟩
    have quotient := Simplify.baseWeight_div_le (closed.sub (closed.mul hda' hb) (closed.mul ha hdb'))
      rational
    refine ⟨closed.div (closed.sub (closed.mul hda' hb) (closed.mul ha hdb')) rational, ?_⟩
    change (Simplify.div _ (Simplify.raise b.simplify 2)).baseWeight ≤ _
    exact quotient.trans (by omega)
  · have quotient := Simplify.baseWeight_div_le hda' hb
    refine ⟨closed.div hda' hb, ?_⟩
    change (Simplify.div _ _).baseWeight ≤ _
    exact quotient.trans (by omega)

private theorem cost_add_cost_pred_le {k : Int} (hk : k ≠ 0) :
    Expr.cost k + Expr.cost (k - 1) ≤ 4 * k.natAbs + 1 := by
  have := Expr.cost_le k
  have := Expr.cost_le (k - 1)
  omega

private theorem isRationalIn_powerRule_and_baseWeight_le {k : Int} {n : Nat} (db : Expr)
    (hk : b.signedInteger? = some k)
    (ha : a.simplify.IsRationalIn v) (hda : da.IsRationalIn v) (hn : a.simplify.baseWeight ≤ n)
    (both : a.simplify.baseWeight + da.baseWeight ≤ 4 * n) :
    (Expr.powerRule v a b da db).IsRationalIn v ∧
      (Simplify.raise a.simplify k).baseWeight + (Expr.powerRule v a b da db).baseWeight ≤
        4 * ((1 + k.natAbs) * (n + 2)) := by
  have closed := Expr.hereditary_isRationalIn v
  have hda' := Expr.isRationalIn_simplify hda
  have lighter := (Simplify.lighter_simplify hda).baseWeight_le
  have lowered : (Simplify.raise a.simplify ((k - 1 : Int) : Rat)).IsRationalIn v :=
    closed.raise ha ⟨_, rfl⟩
  have factor := closed.mul (closed.const k) lowered
  have product := Simplify.baseWeight_mul_le factor hda'
  rw [Expr.powerRule_of_signedInteger? hk]
  refine ⟨closed.mul factor hda', ?_⟩
  rcases eq_or_ne k 0 with rfl | h0
  · have zero := Simplify.baseWeight_zero_mul_raise_le ha ((0 - 1 : Int) : Rat)
    have one : (Simplify.raise a.simplify ((0 : Int) : Rat)).baseWeight = 1 := by
      rw [Int.cast_zero, Simplify.raise.eq_def, if_pos rfl]
      rfl
    rw [Int.cast_zero] at product one ⊢
    rw [Int.natAbs_zero, Nat.add_zero, Nat.one_mul]
    omega
  · have plain := Simplify.baseWeight_raise_le ha k
    have power := Simplify.baseWeight_raise_le ha (k - 1)
    have scaled := Simplify.baseWeight_mul_le (closed.const k) lowered
    have unit : (Expr.const k).baseWeight = 1 := rfl
    have counted := Nat.mul_le_mul (cost_add_cost_pred_le h0) (le_refl a.simplify.baseWeight)
    have grown := Nat.mul_le_mul_left k.natAbs hn
    have expand : (4 * k.natAbs + 1) * a.simplify.baseWeight =
        4 * (k.natAbs * a.simplify.baseWeight) + a.simplify.baseWeight := by ring
    have expand' : (1 + k.natAbs) * (n + 2) = n + 2 + (k.natAbs * n + 2 * k.natAbs) := by ring
    rw [Nat.add_mul, expand] at counted
    rw [expand']
    omega

end Rules

/-- The exponents of the derivative stay in proportion to the size of the expression: the derivative and the
simplified expression weigh at most four times the size, both together. -/
private theorem OfExpr.isRationalIn_derivative_and_baseWeight_le (h : OfExpr v e f) :
    (derivative v e).IsRationalIn v ∧
      e.simplify.baseWeight + (derivative v e).baseWeight ≤ 4 * e.size := by
  have closed := Expr.hereditary_isRationalIn v
  induction h with
  | @constant e c hv hc =>
    have := e.one_le_size
    rw [Expr.derivative_of_not_mentions hv, (Expr.isRationalIn_of_signedConst? (v := v) hc).2]
    exact ⟨trivial, by change 1 + 1 ≤ _; omega⟩
  | var =>
    rw [derivative, if_neg (by simp [Expr.mentions])]
    exact ⟨trivial, by change 1 + 1 ≤ 4 * 1; omega⟩
  | @add a b f g h hv ha hb fits hh hda hdb =>
    have plain := Simplify.baseWeight_add_le_max ha.isRationalIn_simplify hb.isRationalIn_simplify
    have slope := Simplify.baseWeight_add_le_max hda.1 hdb.1
    have size : a.size + b.size + 1 ≤ (Expr.add a b).size := a.size_parts_le b
    rw [derivative, if_neg hv]
    refine ⟨closed.add hda.1 hdb.1, ?_⟩
    change (Simplify.add a.simplify b.simplify).baseWeight + _ ≤ _
    omega
  | @sub a b f g h hv ha hb fits hh hda hdb =>
    have plain := Simplify.baseWeight_sub_le_max ha.isRationalIn_simplify hb.isRationalIn_simplify
    have slope := Simplify.baseWeight_sub_le_max hda.1 hdb.1
    have size : a.size + b.size + 1 ≤ (Expr.sub a b).size := a.size_parts_le b
    rw [derivative, if_neg hv]
    refine ⟨closed.sub hda.1 hdb.1, ?_⟩
    change (Simplify.sub a.simplify b.simplify).baseWeight + _ ≤ _
    omega
  | @mul a b f g h hv ha hb fits hh hda hdb =>
    have plain := Simplify.baseWeight_mul_le ha.isRationalIn_simplify hb.isRationalIn_simplify
    have rule := isRationalIn_productRule_and_baseWeight_le ha.isRationalIn_simplify hb.isRationalIn_simplify
      hda.1 hdb.1
    have left := ha.baseWeight_simplify_le
    have right := hb.baseWeight_simplify_le
    have size : a.size + b.size + 1 ≤ (Expr.mul a b).size := a.size_parts_le b
    rw [derivative, if_neg hv]
    refine ⟨rule.1, ?_⟩
    change (Simplify.mul a.simplify b.simplify).baseWeight + _ ≤ _
    omega
  | @div a b f g i h hv ha hb hi fits hh hda hdb =>
    have plain := Simplify.baseWeight_div_le ha.isRationalIn_simplify hb.isRationalIn_simplify
    have rule := isRationalIn_quotientRule_and_baseWeight_le ha.isRationalIn_simplify
      hb.isRationalIn_simplify hda.1 hdb.1
    have left := ha.baseWeight_simplify_le
    have right := hb.baseWeight_simplify_le
    have size : a.size + b.size + 1 ≤ (Expr.div a b).size := a.size_parts_le b
    rw [derivative, if_neg hv]
    refine ⟨rule.1, ?_⟩
    change (Simplify.div a.simplify b.simplify).baseWeight + _ ≤ _
    omega
  | @neg a f hv ha hda =>
    have plain := Simplify.baseWeight_neg_le a.simplify
    have slope := (Simplify.baseWeight_neg_le _).trans (Simplify.lighter_simplify hda.1).baseWeight_le
    have size := a.size_neg_le
    rw [derivative, if_neg hv]
    refine ⟨closed.neg (Expr.isRationalIn_simplify hda.1), ?_⟩
    change (Simplify.neg a.simplify).baseWeight + (Simplify.neg (derivative v a).simplify).baseWeight ≤ _
    omega
  | @pow a b f h k hv hk ha fits hh hda =>
    have rule := isRationalIn_powerRule_and_baseWeight_le (derivative v b) hk ha.isRationalIn_simplify
      hda.1 ha.baseWeight_simplify_le hda.2
    have size := Expr.size_pow_le (a := a) hk
    rw [derivative, if_neg hv, Expr.simplify, Expr.simplify_of_signedInteger? hk]
    refine ⟨rule.1, ?_⟩
    exact rule.2.trans (by omega)

private theorem OfExpr.regular_derivative (h : OfExpr v e f) : (derivative v e).Regular v :=
  ⟨h.isRationalIn_derivative_and_baseWeight_le.1,
    (h.eventually_denotes_derivative _).mono fun _ ht => ht.defined⟩

section Rules

variable {a b da db : Expr} {i j m n : Nat}

private theorem degreeLe_productRule (ha : a.simplify.Regular v) (hb : b.simplify.Regular v)
    (hda : da.Regular v) (hdb : db.Regular v) (ma : DegreeLe a.simplify.poles i)
    (mb : DegreeLe b.simplify.poles j) (mda : DegreeLe da.poles m) (mdb : DegreeLe db.poles n) :
    DegreeLe (Expr.productRule a b da db).poles (m + j + (i + n)) := by
  have closed := Expr.hereditary_isRationalIn v
  have left := hda.simplify.degreeLe_mul hb (hda.degreeLe_simplify mda) mb
  have right := ha.degreeLe_mul hdb.simplify ma (hdb.degreeLe_simplify mdb)
  exact (left.max right).mono fun P => Simplify.poles_add_le P
    (closed.mul hda.simplify.rational hb.rational) (closed.mul ha.rational hdb.simplify.rational)

private theorem degreeLe_quotientRule (ha : a.simplify.Regular v) (hb : b.simplify.Regular v)
    (nonzero : b.simplify.fraction.numer ≠ 0) (hda : da.Regular v) (hdb : db.Regular v)
    (ma : DegreeLe a.simplify.poles i) (mb : DegreeLe b.simplify.poles j) (mda : DegreeLe da.poles m)
    (mdb : DegreeLe db.poles n) :
    DegreeLe (Expr.quotientRule v a b da db).poles (m + j + (i + n) + 2 * j) := by
  have closed := Expr.hereditary_isRationalIn v
  rw [Expr.quotientRule]
  split_ifs
  · have zeros := (hb.degreeLe_zeros_iff nonzero).mpr mb
    have left := hda.simplify.degreeLe_mul hb (hda.degreeLe_simplify mda) mb
    have right := ha.degreeLe_mul hdb.simplify ma (hdb.degreeLe_simplify mdb)
    have difference := (left.max right).mono fun P => Simplify.poles_sub_le P
      (closed.mul hda.simplify.rational hb.rational) (closed.mul ha.rational hdb.simplify.rational)
    have square : DegreeLe (Simplify.raise b.simplify ((2 : Int) : Rat)).zeros (2 * j) := by
      refine (zeros.const_mul 2).mono fun P => (Simplify.divisor_raise_le P true hb.rational 2).trans ?_
      exact (Nat.add_le_add_left (Nat.zero_mul _).le _)
    exact (difference.add square).mono fun P => Simplify.poles_div_le P
      (closed.sub (closed.mul hda.simplify.rational hb.rational) (closed.mul ha.rational hdb.simplify.rational))
      (closed.raise hb.rational ⟨2, rfl⟩)
  · have quotient := hda.simplify.degreeLe_div hb nonzero (hda.degreeLe_simplify mda) mb
    exact quotient.trans_le (by omega)

private theorem degreeLe_powerRule {k : Int} (db : Expr) (hk : b.signedInteger? = some k)
    (ha : a.simplify.Regular v) (base : 0 ≤ k ∨ a.simplify.fraction.numer ≠ 0) (hda : da.Regular v)
    (ma : DegreeLe a.simplify.poles i) (mda : DegreeLe da.poles m) :
    DegreeLe (Expr.powerRule v a b da db).poles ((1 + k.natAbs) * i + m) := by
  have closed := Expr.hereditary_isRationalIn v
  have lowered : (Simplify.raise a.simplify ((k - 1 : Int) : Rat)).IsRationalIn v :=
    closed.raise ha.rational ⟨_, rfl⟩
  have factor : DegreeLe (Simplify.mul (.const k) (Simplify.raise a.simplify ((k - 1 : Int) : Rat))).poles
      ((1 + k.natAbs) * i) := by
    rcases eq_or_ne k 0 with rfl | h0
    · rw [Int.natAbs_zero, Nat.add_zero, Nat.one_mul]
      rcases Simplify.zero_mul_raise_cases a.simplify ((0 - 1 : Int) : Rat) with zero | inner
      · rw [Int.cast_zero, zero]
        exact DegreeLe.zero
      · have regular := inner.regular ha
        refine (inner.degreeLe ha ma).mono fun P => ?_
        exact (Simplify.poles_mul_le P (closed.const _) regular.rational).trans (Nat.zero_add _).le
    · have raised := ha.degreeLe_raise (k := k - 1) (base.imp_left (by omega)) ma
      refine DegreeLe.trans_le (raised.mono fun P => ?_) (Nat.mul_le_mul_right i (by omega))
      exact (Simplify.poles_mul_le P (closed.const _) lowered).trans (Nat.zero_add _).le
  rw [Expr.powerRule_of_signedInteger? hk]
  exact (factor.add (hda.degreeLe_simplify mda)).mono fun P =>
    Simplify.poles_mul_le P (closed.mul (closed.const k) lowered) hda.simplify.rational

end Rules

private theorem nodeCount_parts_le (a b : Expr) {n : Nat} (h : a.size + b.size + 1 ≤ n) :
    a.nodeCount * a.size + b.nodeCount * b.size + n ≤ (a.nodeCount + b.nodeCount + 1) * n := by
  have left : a.nodeCount * a.size ≤ a.nodeCount * n := Nat.mul_le_mul_left _ (by omega)
  have right : b.nodeCount * b.size ≤ b.nodeCount * n := Nat.mul_le_mul_left _ (by omega)
  rw [Nat.add_mul, Nat.add_mul, Nat.one_mul]
  omega

/-- Every node adds to the poles of the derivative at most three times the size of the expression. -/
private theorem OfExpr.degreeLe_derivative (h : OfExpr v e f) :
    DegreeLe (derivative v e).poles (3 * (e.nodeCount * e.size)) := by
  induction h with
  | constant hv _ =>
    rw [Expr.derivative_of_not_mentions hv]
    exact DegreeLe.zero
  | var =>
    rw [derivative, if_neg (by simp [Expr.mentions])]
    exact DegreeLe.zero
  | @add a b _ _ _ hv ha hb _ _ hda hdb =>
    have parts := nodeCount_parts_le a b (n := (Expr.add a b).size) (a.size_parts_le b)
    have sum := ha.regular_derivative.degreeLe_add hb.regular_derivative hda hdb
    rw [derivative, if_neg hv]
    exact sum.trans_le (by change _ ≤ 3 * ((a.nodeCount + b.nodeCount + 1) * _); omega)
  | @sub a b _ _ _ hv ha hb _ _ hda hdb =>
    have parts := nodeCount_parts_le a b (n := (Expr.sub a b).size) (a.size_parts_le b)
    have sum := ha.regular_derivative.degreeLe_sub hb.regular_derivative hda hdb
    rw [derivative, if_neg hv]
    exact sum.trans_le (by change _ ≤ 3 * ((a.nodeCount + b.nodeCount + 1) * _); omega)
  | @mul a b _ _ _ hv ha hb _ _ hda hdb =>
    have size : a.size + b.size + 1 ≤ (Expr.mul a b).size := a.size_parts_le b
    have parts := nodeCount_parts_le a b size
    have rule := degreeLe_productRule ha.regular_simplify hb.regular_simplify ha.regular_derivative
      hb.regular_derivative ha.degreeLe_simplify hb.degreeLe_simplify hda hdb
    rw [derivative, if_neg hv]
    exact rule.trans_le (by change _ ≤ 3 * ((a.nodeCount + b.nodeCount + 1) * _); omega)
  | @div a b _ _ _ _ hv ha hb hi _ _ hda hdb =>
    have size : a.size + b.size + 1 ≤ (Expr.div a b).size := a.size_parts_le b
    have parts := nodeCount_parts_le a b size
    have rule := degreeLe_quotientRule ha.regular_simplify hb.regular_simplify
      (hb.simplify_numer_ne_zero (numer_ne_zero_of_inverse? hi)) ha.regular_derivative
      hb.regular_derivative ha.degreeLe_simplify hb.degreeLe_simplify hda hdb
    rw [derivative, if_neg hv]
    exact rule.trans_le (by change _ ≤ 3 * ((a.nodeCount + b.nodeCount + 1) * _); omega)
  | @neg a _ hv ha hda =>
    have size := a.size_neg_le
    have parts : a.nodeCount * a.size ≤ (a.nodeCount + 1) * (Expr.neg a).size :=
      Nat.mul_le_mul (Nat.le_succ _) (by omega)
    have negated := (ha.regular_derivative.degreeLe_simplify hda).mono fun P =>
      Simplify.divisor_neg_le P false _
    rw [derivative, if_neg hv]
    exact negated.trans_le (by change _ ≤ 3 * ((a.nodeCount + 1) * _); omega)
  | @pow a b _ _ k hv hk ha fits hh hda =>
    have size := Expr.size_pow_le (a := a) hk
    have counted : (1 + k.natAbs) * a.size ≤ (Expr.pow a b).size :=
      (Nat.mul_le_mul_left _ (Nat.le_add_right _ _)).trans size
    have base := (Nat.le_mul_of_pos_left a.size (by omega : 0 < 1 + k.natAbs)).trans counted
    have part : a.nodeCount * a.size ≤ a.nodeCount * (Expr.pow a b).size := Nat.mul_le_mul_left _ base
    have rule := degreeLe_powerRule (derivative v b) hk ha.regular_simplify
      ((numer_ne_zero_of_power? fits hh).imp_right ha.simplify_numer_ne_zero) ha.regular_derivative
      ha.degreeLe_simplify hda
    rw [derivative, if_neg hv]
    have parts : (Expr.pow a b).nodeCount * (Expr.pow a b).size =
        a.nodeCount * (Expr.pow a b).size + b.nodeCount * (Expr.pow a b).size + (Expr.pow a b).size := by
      rw [Expr.nodeCount]
      ring
    exact rule.trans_le (by omega)

theorem NatDegreeLe.quotientRuleFits {m : Nat} (hf : f.NatDegreeLe m) (small : 2 * m < UInt64.size) :
    f.quotientRuleFits = true := by
  have numer := hf.numer
  have denom := hf.denom
  have slope (p : Poly) : p.derivative.toPolynomial.natDegree ≤ p.toPolynomial.natDegree := by
    rw [Poly.toPolynomial_derivative]
    exact (Polynomial.natDegree_derivative_le _).trans (Nat.sub_le _ _)
  have := slope f.numer
  have := slope f.denom
  rw [RationalFunction.quotientRuleFits, Bool.and_eq_true, Bool.and_eq_true, Poly.productFits_iff,
    Poly.productFits_iff, Poly.productFits_iff]
  omega

end RationalFunction

end Tutor
