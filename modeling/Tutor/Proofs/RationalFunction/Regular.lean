import Tutor.Proofs.RationalFunction.Values
import Tutor.Proofs.Simplify.Poles

/-!
Expressions of one variable that have values at all but finitely many points. The value is that of the
quotient with nothing cancelled, whose order at a place is no lower than the poles of the expression allow;
so a place has as many zeros as poles and the order together.
-/

set_option autoImplicit false
set_option relaxedAutoImplicit false

namespace Tutor

open Filter Polynomial

namespace Fraction

structure HasValue (f : Fraction) (t x : ℝ) : Prop where
  denom_ne_zero : aeval t f.denom ≠ 0
  value : aeval t f.numer = x * aeval t f.denom

variable {f g : Fraction} {t x y : ℝ} (P : Place)

private theorem HasValue.denom_mul_ne_zero (hf : f.HasValue t x) (hg : g.HasValue t y) :
    aeval t (f.denom * g.denom) ≠ 0 := by
  rw [map_mul]
  exact mul_ne_zero hf.denom_ne_zero hg.denom_ne_zero

theorem cross_of_eventually {F G : ℝ → ℝ} (hf : ∀ᶠ t in cofinite, f.HasValue t (F t))
    (hg : ∀ᶠ t in cofinite, g.HasValue t (G t)) (same : ∀ᶠ t in cofinite, F t = G t) :
    f.numer * g.denom = g.numer * f.denom := by
  refine eq_of_eventually_aeval ?_
  filter_upwards [hf, hg, same] with t ft gt same
  rw [map_mul, map_mul, ft.value, gt.value, same]
  ring

theorem numer_ne_zero_of_cross (hf : f.denom ≠ 0) (hg : g.numer ≠ 0)
    (cross : f.numer * g.denom = g.numer * f.denom) : f.numer ≠ 0 := by
  intro h0
  rw [h0, zero_mul] at cross
  exact mul_ne_zero hg hf cross.symm

theorem order_eq_of_cross (hf : f.numer ≠ 0 ∧ f.denom ≠ 0) (hg : g.numer ≠ 0 ∧ g.denom ≠ 0)
    (cross : f.numer * g.denom = g.numer * f.denom) : f.order P = g.order P := by
  have orders := congrArg P.order cross
  rw [P.order_mul hf.1 hg.2, P.order_mul hg.1 hf.2] at orders
  unfold order
  omega

private theorem neg_max_le_order_add {m n : Nat} {p q c d : ℚ[X]} (hc : c ≠ 0) (hd : d ≠ 0)
    (hp : p ≠ 0 → -(m : ℤ) ≤ order ⟨p, c⟩ P) (hq : q ≠ 0 → -(n : ℤ) ≤ order ⟨q, d⟩ P)
    (h0 : p * d + q * c ≠ 0) : -((max m n : Nat) : ℤ) ≤ order ⟨p * d + q * c, c * d⟩ P := by
  have denom := P.order_mul hc hd
  have sum := P.min_order_le_order_add h0
  unfold order at hp hq ⊢
  dsimp only at hp hq ⊢
  rcases eq_or_ne p 0 with rfl | hp0
  · have hq0 : q ≠ 0 := by
      rintro rfl
      simp at h0
    have right := P.order_mul hq0 hc
    have := hq hq0
    rw [zero_mul, zero_add] at *
    omega
  · have left := P.order_mul hp0 hd
    have := hp hp0
    rcases eq_or_ne q 0 with rfl | hq0
    · rw [zero_mul, add_zero] at *
      omega
    · have right := P.order_mul hq0 hc
      have := hq hq0
      omega

end Fraction

namespace Expr

variable {e a b : Expr} {v : String} {ρ : String → ℝ} {k : Int}

private theorem fraction_pow (a : Expr) (k : Int) : (Expr.pow a (.const k)).fraction =
    ⟨a.fraction.numer ^ k.toNat * a.fraction.denom ^ (-k).toNat,
      a.fraction.denom ^ k.toNat * a.fraction.numer ^ (-k).toNat⟩ := by
  simp only [fraction, signedInteger?_intCast, Option.getD_some]

private theorem hasValue_fraction (he : e.IsRationalIn v) (hd : e.DefinedAt ρ) :
    e.fraction.HasValue (ρ v) (e.evalAt ρ) := by
  induction e with
  | var name =>
    obtain rfl : name = v := he
    exact ⟨by simp [fraction], by simp [fraction, evalAt]⟩
  | const q => exact ⟨by simp [fraction], by simp [fraction, evalAt]⟩
  | add a b iha ihb =>
    have left := iha he.1 hd.1
    have right := ihb he.2 hd.2
    refine ⟨left.denom_mul_ne_zero right, ?_⟩
    rw [fraction, map_add, map_mul, map_mul, map_mul, left.value, right.value, evalAt]
    ring
  | sub a b iha ihb =>
    have left := iha he.1 hd.1
    have right := ihb he.2 hd.2
    refine ⟨left.denom_mul_ne_zero right, ?_⟩
    rw [fraction, map_sub, map_mul, map_mul, map_mul, left.value, right.value, evalAt]
    ring
  | mul a b iha ihb =>
    have left := iha he.1 hd.1
    have right := ihb he.2 hd.2
    refine ⟨left.denom_mul_ne_zero right, ?_⟩
    rw [fraction, map_mul, map_mul, left.value, right.value, evalAt]
    ring
  | div a b iha ihb =>
    obtain ⟨a0, av⟩ := iha he.1 hd.1
    obtain ⟨b0, bv⟩ := ihb he.2 hd.2.1
    refine ⟨?_, ?_⟩
    · rw [fraction, map_mul, bv]
      exact mul_ne_zero a0 (mul_ne_zero hd.2.2 b0)
    · rw [fraction, map_mul, map_mul, av, bv, evalAt]
      field_simp [hd.2.2]
  | pow a b iha _ =>
    obtain ⟨ha, k, rfl⟩ := he
    obtain ⟨hda, -, power⟩ := hd
    obtain ⟨a0, av⟩ := iha ha hda
    rw [evalAt, Rat.cast_intCast] at power
    rw [fraction_pow, evalAt, evalAt, Rat.cast_intCast, Real.rpow_intCast]
    obtain ⟨n, rfl | rfl⟩ := k.eq_nat_or_neg
    · refine ⟨?_, ?_⟩
      · simpa using pow_ne_zero n a0
      · simp [av, mul_pow]
    · have base : (a.evalAt ρ) ^ n ≠ 0 := by
        by_cases h0 : a.evalAt ρ = 0
        · rw [h0] at power
          obtain rfl : n = 0 := by
            have nonneg : (0 : ℝ) ≤ ((-n : Int) : ℝ) := power.exponent_nonneg
            have : (0 : Int) ≤ -n := by exact_mod_cast nonneg
            omega
          rw [pow_zero]
          exact one_ne_zero
        · exact pow_ne_zero n h0
      rw [neg_neg, Int.toNat_natCast, Int.toNat_neg_natCast, pow_zero, pow_zero, one_mul, one_mul, zpow_neg,
        zpow_natCast]
      refine ⟨?_, ?_⟩
      · rw [map_pow, av, mul_pow]
        exact mul_ne_zero base (pow_ne_zero n a0)
      · rw [map_pow, map_pow, av, mul_pow, inv_mul_cancel_left₀ base]
  | neg a ih =>
    obtain ⟨a0, av⟩ := ih he hd
    refine ⟨a0, ?_⟩
    rw [fraction, map_neg, av, evalAt, neg_mul]
  | sin a | cos a | tan a | exp a | log a => exact he.elim

/-- An expression of one variable with values at all but finitely many points. -/
structure Regular (v : String) (e : Expr) : Prop where
  rational : e.IsRationalIn v
  defined : ∀ᶠ t in cofinite, e.DefinedAt (Function.update (fun _ => 0) v t)

namespace Regular

theorem eventually_hasValue (he : Regular v e) : ∀ᶠ t in cofinite,
    e.fraction.HasValue t (e.evalAt (Function.update (fun _ => 0) v t)) := by
  filter_upwards [he.defined] with t ht
  have value := hasValue_fraction he.rational ht
  rwa [Function.update_self] at value

theorem denom_ne_zero (he : Regular v e) : e.fraction.denom ≠ 0 := by
  obtain ⟨t, ht⟩ := he.eventually_hasValue.exists
  intro h0
  exact ht.denom_ne_zero (by rw [h0, map_zero])

/-- As a quotient an expression keeps its numerator and denominator across a change that keeps its
values. -/
theorem cross {e' : Expr} (he : Regular v e) (he' : Regular v e')
    (same : ∀ᶠ t in cofinite, e.evalAt (Function.update (fun _ => 0) v t) =
      e'.evalAt (Function.update (fun _ => 0) v t)) :
    e.fraction.numer * e'.fraction.denom = e'.fraction.numer * e.fraction.denom :=
  Fraction.cross_of_eventually he.eventually_hasValue he'.eventually_hasValue same

theorem add (h : Regular v (.add a b)) : Regular v a ∧ Regular v b :=
  ⟨⟨h.rational.1, h.defined.mono fun _ ht => ht.1⟩, h.rational.2, h.defined.mono fun _ ht => ht.2⟩

theorem sub (h : Regular v (.sub a b)) : Regular v a ∧ Regular v b :=
  ⟨⟨h.rational.1, h.defined.mono fun _ ht => ht.1⟩, h.rational.2, h.defined.mono fun _ ht => ht.2⟩

theorem mul (h : Regular v (.mul a b)) : Regular v a ∧ Regular v b :=
  ⟨⟨h.rational.1, h.defined.mono fun _ ht => ht.1⟩, h.rational.2, h.defined.mono fun _ ht => ht.2⟩

theorem neg (h : Regular v (.neg a)) : Regular v a := ⟨h.rational, h.defined⟩

theorem numer_ne_zero (he : Regular v e)
    (h : ∀ᶠ t in cofinite, e.evalAt (Function.update (fun _ => 0) v t) ≠ 0) : e.fraction.numer ≠ 0 := by
  obtain ⟨t, value, nonzero⟩ := (he.eventually_hasValue.and h).exists
  intro h0
  have product := value.value
  rw [h0, map_zero] at product
  exact mul_ne_zero nonzero value.denom_ne_zero product.symm

theorem div (h : Regular v (.div a b)) :
    Regular v a ∧ Regular v b ∧ b.fraction.numer ≠ 0 := by
  have divisor : Regular v b := ⟨h.rational.2, h.defined.mono fun _ ht => ht.2.1⟩
  exact ⟨⟨h.rational.1, h.defined.mono fun _ ht => ht.1⟩, divisor,
    divisor.numer_ne_zero (h.defined.mono fun _ ht => ht.2.2)⟩

theorem pow (h : Regular v (.pow a (.const k))) :
    Regular v a ∧ (0 ≤ k ∨ a.fraction.numer ≠ 0) := by
  have base : Regular v a := ⟨h.rational.1, h.defined.mono fun _ ht => ht.1⟩
  refine ⟨base, or_iff_not_imp_left.mpr fun negative => base.numer_ne_zero ?_⟩
  filter_upwards [h.defined] with t ht h0
  have power := ht.2.2
  rw [h0, evalAt, Rat.cast_intCast] at power
  exact negative (by exact_mod_cast power.exponent_nonneg)

/-- A place has as many zeros as poles and the order together. -/
theorem zeros_eq (he : Regular v e) (h0 : e.fraction.numer ≠ 0) (P : Place) :
    (e.zeros P : ℤ) = e.poles P + e.fraction.order P := by
  have bounded {e : Expr} (h : e.fraction.numer ≠ 0 → (e.zeros P : ℤ) = e.poles P + e.fraction.order P) :
      e.fraction.numer ≠ 0 → -(e.poles P : ℤ) ≤ e.fraction.order P := by
    intro h0
    have := h h0
    omega
  induction e with
  | var name =>
    simp only [divisor, polesOrZeros, fraction, Fraction.order, Place.order_one]
    simp
    omega
  | const q => simp [divisor, fraction, Fraction.order]
  | add a b iha ihb =>
    obtain ⟨ha, hb⟩ := he.add
    have order := Fraction.neg_max_le_order_add P ha.denom_ne_zero hb.denom_ne_zero
      (bounded (iha ha)) (bounded (ihb hb)) h0
    exact Int.toNat_of_nonneg (neg_le_iff_add_nonneg'.mp order)
  | sub a b iha ihb =>
    obtain ⟨ha, hb⟩ := he.sub
    have difference : a.fraction.numer * b.fraction.denom - b.fraction.numer * a.fraction.denom =
        a.fraction.numer * b.fraction.denom + -b.fraction.numer * a.fraction.denom := by ring
    have negated (h : -b.fraction.numer ≠ 0) :
        -(b.poles P : ℤ) ≤ Fraction.order ⟨-b.fraction.numer, b.fraction.denom⟩ P := by
      rw [Fraction.order, Place.order_neg]
      exact bounded (ihb hb) (neg_ne_zero.mp h)
    have order := Fraction.neg_max_le_order_add P ha.denom_ne_zero hb.denom_ne_zero
      (bounded (iha ha)) negated (difference ▸ h0)
    rw [← difference] at order
    exact Int.toNat_of_nonneg (neg_le_iff_add_nonneg'.mp order)
  | mul a b iha ihb =>
    obtain ⟨ha, hb⟩ := he.mul
    obtain ⟨na, nb⟩ := mul_ne_zero_iff.mp h0
    have left := iha ha na
    have right := ihb hb nb
    simp only [poles, zeros, divisor, fraction, Fraction.order, P.order_mul na nb,
      P.order_mul ha.denom_ne_zero hb.denom_ne_zero, Nat.cast_add] at left right ⊢
    omega
  | div a b iha ihb =>
    obtain ⟨ha, hb, nb⟩ := he.div
    have na := left_ne_zero_of_mul h0
    have left := iha ha na
    have right := ihb hb nb
    simp only [poles, zeros, divisor, fraction, Fraction.order, P.order_mul na hb.denom_ne_zero,
      P.order_mul ha.denom_ne_zero nb, Nat.cast_add, Bool.not_true, Bool.not_false] at left right ⊢
    omega
  | pow a b iha _ =>
    obtain ⟨-, k, rfl⟩ := he.rational
    obtain ⟨ha, base⟩ := he.pow
    rcases eq_or_ne k 0 with rfl | hk
    · rw [fraction_pow]
      simp only [poles, zeros, divisor, signedInteger?_intCast, Option.getD_some, Fraction.order]
      simp
    · have na : a.fraction.numer ≠ 0 := by
        rcases base with nonneg | na
        · rw [fraction_pow] at h0
          exact (pow_ne_zero_iff (by omega)).mp (left_ne_zero_of_mul h0)
        · exact na
      have value := iha ha na
      have da := ha.denom_ne_zero
      rw [zeros, poles, Simplify.divisor_pow_of_ne_zero P true a hk,
        Simplify.divisor_pow_of_ne_zero P false a hk, fraction_pow]
      simp only [Simplify.powerDivisor, Fraction.order, Bool.not_true, Bool.not_false, Nat.cast_add,
        Nat.cast_mul] at value ⊢
      rw [P.order_mul (pow_ne_zero _ na) (pow_ne_zero _ da), P.order_mul (pow_ne_zero _ da) (pow_ne_zero _ na),
        P.order_pow na, P.order_pow da, P.order_pow na, P.order_pow da]
      rw [value]
      ring
  | neg a ih =>
    have value := ih he.neg (neg_ne_zero.mp h0)
    simpa only [divisor, fraction, Fraction.order, Place.order_neg] using value
  | sin a | cos a | tan a | exp a | log a => exact he.rational.elim

/-! ### A pass -/

theorem simplify (he : Regular v e) : Regular v e.simplify :=
  ⟨isRationalIn_simplify he.rational, he.defined.mono fun _ ht => (denotes_simplify ht.denotes).defined⟩

/-- A pass keeps the function, so it adds no zeros if it adds no poles. -/
private theorem zeros_simplify_le (he : Regular v e) (h0 : e.fraction.numer ≠ 0) {P : Place}
    (poles_le : e.simplify.poles P ≤ e.poles P) : e.simplify.zeros P ≤ e.zeros P := by
  have cross := he.simplify.cross he <| by
    filter_upwards [he.defined] with t ht
    exact (denotes_simplify ht.denotes).value
  have h0' := Fraction.numer_ne_zero_of_cross he.simplify.denom_ne_zero h0 cross
  have order := Fraction.order_eq_of_cross P ⟨h0', he.simplify.denom_ne_zero⟩ ⟨h0, he.denom_ne_zero⟩ cross
  have before := he.zeros_eq h0 P
  have after := he.simplify.zeros_eq h0' P
  omega

theorem poles_simplify_le (he : Regular v e) (P : Place) : e.simplify.poles P ≤ e.poles P := by
  induction e with
  | var | const => exact le_rfl
  | add a b iha ihb =>
    obtain ⟨ha, hb⟩ := he.add
    exact (Simplify.poles_add_le P ha.simplify.rational hb.simplify.rational).trans
      (max_le_max (iha ha) (ihb hb))
  | sub a b iha ihb =>
    obtain ⟨ha, hb⟩ := he.sub
    exact (Simplify.poles_sub_le P ha.simplify.rational hb.simplify.rational).trans
      (max_le_max (iha ha) (ihb hb))
  | mul a b iha ihb =>
    obtain ⟨ha, hb⟩ := he.mul
    exact (Simplify.poles_mul_le P ha.simplify.rational hb.simplify.rational).trans
      (Nat.add_le_add (iha ha) (ihb hb))
  | div a b iha ihb =>
    obtain ⟨ha, hb, nonzero⟩ := he.div
    exact (Simplify.poles_div_le P ha.simplify.rational hb.simplify.rational).trans
      (Nat.add_le_add (iha ha) (hb.zeros_simplify_le nonzero (ihb hb)))
  | pow a b iha _ =>
    obtain ⟨-, k, rfl⟩ := he.rational
    obtain ⟨ha, base⟩ := he.pow
    refine (Simplify.divisor_raise_le P false ha.simplify.rational k).trans
      (le_trans ?_ (Simplify.powerDivisor_le_divisor_pow P false a k))
    refine Nat.add_le_add (Nat.mul_le_mul_left _ (iha ha)) ?_
    rcases base with nonneg | nonzero
    · rw [show (-k).toNat = 0 by omega, Nat.zero_mul, Nat.zero_mul]
    · exact Nat.mul_le_mul_left _ (ha.zeros_simplify_le nonzero (iha ha))
  | neg a ih => exact (Simplify.divisor_neg_le P false _).trans (ih he.neg)
  | sin a | cos a | tan a | exp a | log a => exact he.rational.elim

end Regular

end Expr

end Tutor
