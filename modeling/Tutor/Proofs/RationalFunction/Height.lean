import Tutor.Proofs.RationalFunction.Regular
import Tutor.Proofs.Simplify.Constant
import Tutor.Proofs.Simplify.Weight

/-!
The degrees of a rational function, and when an expression has one. Over all places together an expression
with values has as many zeros as poles, and the degrees are no larger. So an expression has a function as
long as its exponents are worked out and its poles are fewer than sums of powers can count.
-/

set_option autoImplicit false
set_option relaxedAutoImplicit false

namespace Tutor

open Filter Polynomial

namespace Expr

variable {a b e : Expr} {v : String} {k : Int} {q : Rat} {ρ : String → ℝ}

/-! ### Constants -/

private theorem simplify_of_signedConst? (h : e.signedConst? = some q) : e.simplify = .const q := by
  refine signedConst?_induction (P := fun e q => e.simplify = .const q) (fun _ => rfl) ?_ h
  intro a c ha
  rw [simplify, ha]
  rfl

theorem simplify_of_signedInteger? (h : e.signedInteger? = some k) : e.simplify = .const k :=
  simplify_of_signedConst? (signedConst?_of_signedInteger? h)

theorem isRationalIn_of_signedConst? (h : e.signedConst? = some q) :
    e.IsRationalIn v ∧ e.baseWeight = 1 :=
  signedConst?_induction (P := fun e _ => e.IsRationalIn v ∧ e.baseWeight = 1)
    (fun _ => ⟨trivial, rfl⟩) (fun _ _ ih => ih) h

/-- Constants and arithmetic that has a value become a constant, unless an exponent is too large to be
worked out. -/
private theorem simplify_eq_const (he : e.IsRationalIn v) (free : e.mentions v = false)
    (hw : e.weight false < UInt32.size) (hd : e.DefinedAt ρ) : ∃ c, e.simplify = .const c := by
  induction e with
  | var name =>
    obtain rfl : name = v := he
    simp [mentions] at free
  | const q => exact ⟨q, rfl⟩
  | add a b iha ihb =>
    simp only [mentions, Bool.or_eq_false_iff] at free
    simp only [weight] at hw
    obtain ⟨p, hp⟩ := iha he.1 free.1 (by omega) hd.1
    obtain ⟨q, hq⟩ := ihb he.2 free.2 (by omega) hd.2
    refine ⟨p + q, ?_⟩
    rw [simplify, hp, hq]
    exact Simplify.add_const p q
  | sub a b iha ihb =>
    simp only [mentions, Bool.or_eq_false_iff] at free
    simp only [weight] at hw
    obtain ⟨p, hp⟩ := iha he.1 free.1 (by omega) hd.1
    obtain ⟨q, hq⟩ := ihb he.2 free.2 (by omega) hd.2
    refine ⟨p + -q, ?_⟩
    rw [simplify, hp, hq]
    exact Simplify.add_const p (-q)
  | mul a b iha ihb =>
    simp only [mentions, Bool.or_eq_false_iff] at free
    simp only [weight] at hw
    obtain ⟨p, hp⟩ := iha he.1 free.1 (by omega) hd.1
    obtain ⟨q, hq⟩ := ihb he.2 free.2 (by omega) hd.2
    refine ⟨p * q, ?_⟩
    rw [simplify, hp, hq]
    rfl
  | div a b iha ihb =>
    obtain ⟨hda, hdb, h0⟩ := hd
    have left := a.weight_false_le_baseWeight
    have right := b.weight_false_le_baseWeight
    simp only [mentions, Bool.or_eq_false_iff] at free
    rw [weight_div] at hw
    obtain ⟨p, hp⟩ := iha he.1 free.1 (by omega) hda
    obtain ⟨q, hq⟩ := ihb he.2 free.2 (by omega) hdb
    have nonzero : q ≠ 0 := by
      have value := (denotes_simplify hdb.denotes).value
      rw [hq, evalAt] at value
      rw [← value] at h0
      exact_mod_cast h0
    refine ⟨p / q, ?_⟩
    rw [simplify, hp, hq]
    exact if_neg nonzero
  | pow a b iha _ =>
    obtain ⟨ha, k, rfl⟩ := he
    obtain ⟨hda, -, power⟩ := hd
    have base := a.weight_false_le_baseWeight
    have exponent := natAbs_le_cost k
    simp only [mentions, Bool.or_eq_false_iff] at free
    rw [weight_pow, exponentCost_intCast] at hw
    have base_le := Nat.le_mul_of_pos_left a.baseWeight (one_le_cost k)
    have cost_le := Nat.le_mul_of_pos_right (cost k) a.one_le_baseWeight
    obtain ⟨p, hp⟩ := iha ha free.1 (by omega) hda
    rw [simplify, hp]
    refine Simplify.exists_raise_const (by omega) ?_
    by_contra! undefined
    obtain ⟨h0, negative⟩ := undefined
    have value := (denotes_simplify hda.denotes).value
    rw [hp, h0, evalAt, Rat.cast_zero] at value
    rw [← value] at power
    have nonneg := power.exponent_nonneg
    rw [evalAt, Rat.cast_intCast] at nonneg
    exact absurd (by exact_mod_cast nonneg) (not_le.mpr negative)
  | neg a ih =>
    obtain ⟨p, hp⟩ := ih he free hw hd
    refine ⟨-p, ?_⟩
    rw [simplify, hp]
    rfl
  | sin a | cos a | tan a | exp a | log a => exact he.elim

end Expr

/-! ### Poles and zeros at all places -/

namespace Expr

variable {a b e : Expr} {v : String} {k : Int} {m n : Nat}

/-- Over all places together an expression other than zero has as many zeros as poles. -/
theorem Regular.degreeLe_zeros_iff (he : Regular v e) (h0 : e.fraction.numer ≠ 0) :
    DegreeLe e.zeros m ↔ DegreeLe e.poles m := by
  refine eventually_congr ?_
  filter_upwards [Place.eventually_sum_order h0, Place.eventually_sum_order he.denom_ne_zero]
    with S numer denom
  have orders : ∑ P ∈ S, e.fraction.order P = 0 := by
    simp only [Fraction.order, Finset.sum_sub_distrib, numer, denom, sub_zero]
  have sums : ((∑ P ∈ S, e.zeros P : Nat) : ℤ) = ((∑ P ∈ S, e.poles P : Nat) : ℤ) := by
    rw [Nat.cast_sum, Nat.cast_sum, ← add_zero (∑ P ∈ S, (e.poles P : ℤ)), ← orders,
      ← Finset.sum_add_distrib]
    exact Finset.sum_congr rfl fun P _ => he.zeros_eq h0 P
  rw [Nat.cast_inj.mp sums]

theorem Regular.degreeLe_simplify (he : Regular v e) (hm : DegreeLe e.poles m) :
    DegreeLe e.simplify.poles m :=
  hm.mono he.poles_simplify_le

theorem Regular.degreeLe_add (ha : Regular v a) (hb : Regular v b) (ma : DegreeLe a.poles m)
    (mb : DegreeLe b.poles n) : DegreeLe (Simplify.add a b).poles (m + n) :=
  (ma.max mb).mono fun P => Simplify.poles_add_le P ha.rational hb.rational

theorem Regular.degreeLe_sub (ha : Regular v a) (hb : Regular v b) (ma : DegreeLe a.poles m)
    (mb : DegreeLe b.poles n) : DegreeLe (Simplify.sub a b).poles (m + n) :=
  (ma.max mb).mono fun P => Simplify.poles_sub_le P ha.rational hb.rational

theorem Regular.degreeLe_mul (ha : Regular v a) (hb : Regular v b) (ma : DegreeLe a.poles m)
    (mb : DegreeLe b.poles n) : DegreeLe (Simplify.mul a b).poles (m + n) :=
  (ma.add mb).mono fun P => Simplify.poles_mul_le P ha.rational hb.rational

theorem Regular.degreeLe_div (ha : Regular v a) (hb : Regular v b) (h0 : b.fraction.numer ≠ 0)
    (ma : DegreeLe a.poles m) (mb : DegreeLe b.poles n) : DegreeLe (Simplify.div a b).poles (m + n) :=
  (ma.add ((hb.degreeLe_zeros_iff h0).mpr mb)).mono fun P =>
    Simplify.poles_div_le P ha.rational hb.rational

theorem Regular.degreeLe_raise (ha : Regular v a) (base : 0 ≤ k ∨ a.fraction.numer ≠ 0)
    (hm : DegreeLe a.poles m) : DegreeLe (Simplify.raise a k).poles (k.natAbs * m) := by
  have raised (P : Place) := Simplify.divisor_raise_le P false ha.rational k
  rcases le_or_gt 0 k with nonneg | negative
  · refine (hm.const_mul k.natAbs).mono fun P => (raised P).trans (le_of_eq ?_)
    rw [Simplify.powerDivisor, show (-k).toNat = 0 by omega, show k.toNat = k.natAbs by omega, Nat.zero_mul,
      Nat.add_zero]
  · have zeros := (ha.degreeLe_zeros_iff (base.resolve_left (by omega))).mpr hm
    refine (zeros.const_mul k.natAbs).mono fun P => (raised P).trans (le_of_eq ?_)
    rw [Simplify.powerDivisor, show k.toNat = 0 by omega, show (-k).toNat = k.natAbs by omega, Nat.zero_mul,
      Nat.zero_add, Bool.not_false]

theorem Regular.degreeLe_base (he : Regular v (.pow a (.const k)))
    (hm : DegreeLe (Expr.pow a (.const k)).poles m) : ∃ n, DegreeLe a.poles n ∧ n ≤ m ∧ k.natAbs * n ≤ m := by
  obtain ⟨ha, base⟩ := he.pow
  rcases lt_trichotomy k 0 with negative | rfl | positive
  · have counted : DegreeLe (fun P => k.natAbs * a.zeros P) m := by
      refine hm.mono fun P => ?_
      have size : k.natAbs = (-k).toNat := by omega
      change _ ≤ (Expr.pow a (.const k)).divisor P false
      rw [Simplify.divisor_pow_of_ne_zero P false a negative.ne, Simplify.powerDivisor, size]
      exact Nat.le_add_left _ _
    refine ⟨m / k.natAbs, ?_, Nat.div_le_self _ _, Nat.mul_div_le _ _⟩
    exact (ha.degreeLe_zeros_iff (base.resolve_left (by omega))).mp (counted.of_const_mul (by omega))
  · refine ⟨m, hm.mono fun P => ?_, le_rfl, by simp⟩
    simp only [poles, divisor, signedInteger?_intCast, Option.getD_some, if_true]
    exact Nat.le_add_right _ _
  · have counted : DegreeLe (fun P => k.natAbs * a.poles P) m := by
      refine hm.mono fun P => ?_
      have size : k.natAbs = k.toNat := by omega
      change _ ≤ (Expr.pow a (.const k)).divisor P false
      rw [Simplify.divisor_pow_of_ne_zero P false a positive.ne', Simplify.powerDivisor, size]
      exact Nat.le_add_right _ _
    exact ⟨m / k.natAbs, counted.of_const_mul (by omega), Nat.div_le_self _ _, Nat.mul_div_le _ _⟩

end Expr

namespace RationalFunction

variable {f g h i : RationalFunction} {a b e : Expr} {v : String} {k : Int} {m n : Nat}

/-! ### Degrees -/

structure NatDegreeLe (f : RationalFunction) (m : Nat) : Prop where
  numer : f.numer.toPolynomial.natDegree ≤ m
  denom : f.denom.toPolynomial.natDegree ≤ m

private theorem OfExpr.natDegreeLe (hf : OfExpr v e f) (he : e.Regular v) (hm : DegreeLe e.poles m) :
    f.NatDegreeLe m := by
  have monic := hf.reduced.monic
  have coprime := hf.reduced.coprime
  by_cases h0 : f.numer.toPolynomial = 0
  · rw [h0, isCoprime_zero_left] at coprime
    refine ⟨?_, ?_⟩
    · rw [h0, natDegree_zero]
      exact Nat.zero_le m
    · rw [natDegree_eq_zero_of_isUnit coprime]
      exact Nat.zero_le m
  let g : Fraction := ⟨f.numer.toPolynomial, f.denom.toPolynomial⟩
  have values : ∀ᶠ t in cofinite, g.HasValue t (e.evalAt (Function.update (fun _ => 0) v t)) := by
    filter_upwards [he.defined] with t ht
    obtain ⟨nonzero, value⟩ := hf.hasValue ht.denotes
    rw [Function.update_self, ← Poly.aeval_toPolynomial] at nonzero value
    rw [← Poly.aeval_toPolynomial] at value
    exact ⟨nonzero, value⟩
  have cross := Fraction.cross_of_eventually values he.eventually_hasValue (.of_forall fun _ => rfl)
  have numer := Fraction.numer_ne_zero_of_cross he.denom_ne_zero h0 cross.symm
  have order_le (P : Place) : -(e.poles P : ℤ) ≤ g.order P := by
    have zeros := he.zeros_eq numer P
    rw [Fraction.order_eq_of_cross P ⟨h0, monic.ne_zero⟩ ⟨numer, he.denom_ne_zero⟩ cross]
    omega
  -- A zero of the denominator is none of the numerator, so it is a pole of the expression.
  have zeros_le (z : ℂ) : Place.order (some z) f.denom.toPolynomial ≤ e.poles (some z) := by
    have pole : -(e.poles (some z) : ℤ) ≤ Place.order (some z) f.numer.toPolynomial -
        Place.order (some z) f.denom.toPolynomial := order_le (some z)
    rcases Place.order_eq_zero_or_of_isCoprime coprime z with h | h
    · rw [h] at pole
      omega
    · rw [h]
      exact Nat.cast_nonneg _
  let roots := (f.denom.toPolynomial.map (algebraMap ℚ ℂ)).roots.toFinset
  have finite : (f.denom.toPolynomial.natDegree : ℤ) ≤ (∑ z ∈ roots, e.poles (some z) : Nat) := by
    rw [← Place.sum_order_roots, Nat.cast_sum]
    exact Finset.sum_le_sum fun z _ => zeros_le z
  obtain ⟨S, hS, subset⟩ := (hm.and (eventually_ge_atTop (Finset.insertNone roots))).exists
  have total : e.poles none + ∑ z ∈ roots, e.poles (some z) ≤ m := by
    rw [← Finset.sum_insertNone]
    exact (Finset.sum_le_sum_of_subset subset).trans hS
  have infinite := order_le none
  simp only [Fraction.order, Place.order, g] at infinite
  refine ⟨?_, ?_⟩ <;> omega

private theorem natDegree_le_of_ofQuotient? {n d : Poly} (hf : ofQuotient? n d = some f) :
    f.numer.toPolynomial.natDegree ≤ n.toPolynomial.natDegree ∧
      f.denom.toPolynomial.natDegree ≤ d.toPolynomial.natDegree := by
  obtain ⟨hd, reduced, same⟩ := ofQuotient?_spec hf
  refine ⟨?_, natDegree_le_of_dvd ?_ hd⟩
  · by_cases hn : n.toPolynomial = 0
    · rw [hn, zero_mul] at same
      rw [(mul_eq_zero.mp same).resolve_right hd, natDegree_zero]
      exact Nat.zero_le _
    · exact natDegree_le_of_dvd (reduced.coprime.dvd_of_dvd_mul_right (Dvd.intro _ same)) hn
  · exact reduced.coprime.symm.dvd_of_dvd_mul_left (Dvd.intro_left _ same.symm)

namespace NatDegreeLe

theorem mono (hf : f.NatDegreeLe m) (hmn : m ≤ n) : f.NatDegreeLe n :=
  ⟨hf.numer.trans hmn, hf.denom.trans hmn⟩

theorem neg (hf : f.NatDegreeLe m) : f.neg.NatDegreeLe m := by
  refine ⟨?_, hf.denom⟩
  rw [RationalFunction.neg, Poly.toPolynomial_neg, natDegree_neg]
  exact hf.numer

theorem inverse (hg : g.NatDegreeLe m) (hi : g.inverse? = some i) : i.NatDegreeLe m := by
  obtain ⟨numer, denom⟩ := natDegree_le_of_ofQuotient? hi
  exact ⟨numer.trans hg.denom, denom.trans hg.numer⟩

theorem sumFits (hf : f.NatDegreeLe m) (hg : g.NatDegreeLe n) (fits : m + n < UInt64.size) :
    f.sumFits g = true := by
  have := hf.numer
  have := hf.denom
  have := hg.numer
  have := hg.denom
  refine sumFits_iff.mpr ⟨?_, ?_, ?_⟩ <;> rw [Poly.productFits_iff] <;> omega

theorem productFits (hf : f.NatDegreeLe m) (hg : g.NatDegreeLe n) (fits : m + n < UInt64.size) :
    f.productFits g = true := by
  have := hf.numer
  have := hf.denom
  have := hg.numer
  have := hg.denom
  refine productFits_iff.mpr ⟨?_, ?_⟩ <;> rw [Poly.productFits_iff] <;> omega

theorem powerFits (hf : f.NatDegreeLe m) (fits : 2 * (k.natAbs * m) < UInt64.size) :
    f.powerFits k = true := by
  have power {p : Poly} (hp : p.toPolynomial.natDegree ≤ m) : p.powerFits k.natAbs = true :=
    Poly.powerFits_of_lt <|
      (Nat.mul_le_mul_left 2 (Nat.mul_le_mul_left k.natAbs hp)).trans_lt fits
  simp only [RationalFunction.powerFits, Expr.exponentSize?, Option.all_eq_true, Bool.and_eq_true]
  rintro _ h
  obtain ⟨-, size⟩ := Option.ite_none_right_eq_some.mp h
  obtain rfl := Option.some.inj size
  exact ⟨power hf.numer, power hf.denom⟩

theorem add (hf : f.NatDegreeLe m) (hg : g.NatDegreeLe n) (fits : f.sumFits g = true)
    (hh : f.add? g = some h) : h.NatDegreeLe (m + n) := by
  obtain ⟨left, right, square⟩ := sumFits_iff.mp fits
  obtain ⟨numer, denom⟩ := natDegree_le_of_ofQuotient? hh
  rw [Poly.toPolynomial_add, Poly.toPolynomial_mul_of_fits left, Poly.toPolynomial_mul_of_fits right] at numer
  rw [Poly.toPolynomial_mul_of_fits square] at denom
  refine ⟨numer.trans (natDegree_add_le_of_degree_le ?_ ?_), denom.trans ?_⟩
  · exact natDegree_mul_le_of_le hf.numer hg.denom
  · exact (natDegree_mul_le_of_le hg.numer hf.denom).trans_eq (Nat.add_comm n m)
  · exact natDegree_mul_le_of_le hf.denom hg.denom

theorem mul (hf : f.NatDegreeLe m) (hg : g.NatDegreeLe n) (fits : f.productFits g = true)
    (hh : f.mul? g = some h) : h.NatDegreeLe (m + n) := by
  obtain ⟨left, right⟩ := productFits_iff.mp fits
  obtain ⟨numer, denom⟩ := natDegree_le_of_ofQuotient? hh
  rw [Poly.toPolynomial_mul_of_fits left] at numer
  rw [Poly.toPolynomial_mul_of_fits right] at denom
  exact ⟨numer.trans (natDegree_mul_le_of_le hf.numer hg.numer),
    denom.trans (natDegree_mul_le_of_le hf.denom hg.denom)⟩

theorem power (hf : f.NatDegreeLe m) (fits : f.powerFits k = true) (hh : f.power? k = some h) :
    h.NatDegreeLe (k.natAbs * m) := by
  obtain ⟨left, right⟩ := powerFits_of_power? fits hh
  obtain ⟨raised, hraised, hh⟩ := exists_raised hh
  obtain ⟨numer, denom⟩ := natDegree_le_of_ofQuotient? hraised
  rw [Poly.toPolynomial_power_of_fits left] at numer
  rw [Poly.toPolynomial_power_of_fits right] at denom
  have whole : raised.NatDegreeLe (k.natAbs * m) :=
    ⟨numer.trans (natDegree_pow_le_of_le _ hf.numer), denom.trans (natDegree_pow_le_of_le _ hf.denom)⟩
  split_ifs at hh
  · exact whole.inverse hh
  · exact Option.some.inj hh ▸ whole

end NatDegreeLe

/-! ### When an expression has a function -/

theorem OfExpr.numer_ne_zero {ρ : String → ℝ} {r : ℝ} (hf : OfExpr v e f) (he : Expr.Denotes ρ e r)
    (hr : r ≠ 0) : f.numer.toPolynomial ≠ 0 := by
  intro h0
  have value := hf.hasValue he
  have numer : f.numer.valueAt (ρ v) = 0 := by rw [← Poly.aeval_toPolynomial, h0, map_zero]
  rw [value.value] at numer
  exact mul_ne_zero hr value.denom_ne_zero numer

/-- An expression without the variable is worked out to a constant; so the kind of a node matters only
above the variable. -/
private theorem exists_ofExpr_cases (he : e.Regular v) (hw : e.weight false < UInt32.size)
    (rule : ¬e.mentions v = false → ∃ f, OfExpr v e f) : ∃ f, OfExpr v e f := by
  by_cases hv : e.mentions v = false
  · obtain ⟨t, ht⟩ := he.defined.exists
    obtain ⟨c, hc⟩ := Expr.simplify_eq_const he.rational hv hw ht
    refine ⟨ofPoly (.const c), .constant hv ?_⟩
    rw [Expr.constantValue?, hc]
    rfl
  · exact rule hv

/-- An expression of one variable with values at all but finitely many points has a rational function, if
its exponents are small enough to be worked out and its poles few enough for sums of powers. -/
theorem exists_ofExpr (he : e.Regular v) (hw : e.weight false < UInt32.size) (hm : DegreeLe e.poles m)
    (fits : 2 * m < UInt64.size) : ∃ f, OfExpr v e f := by
  induction e generalizing m with
  | var name =>
    obtain rfl : name = v := he.rational
    exact ⟨_, .var⟩
  | const q => exact ⟨_, .constant rfl rfl⟩
  | add a b iha ihb =>
    refine exists_ofExpr_cases he hw fun hv => ?_
    simp only [Expr.weight] at hw
    obtain ⟨ha, hb⟩ := he.add
    have ma : DegreeLe a.poles m := hm.mono fun P => Nat.le_max_left _ _
    have mb : DegreeLe b.poles m := hm.mono fun P => Nat.le_max_right _ _
    obtain ⟨f, hf⟩ := iha ha (by omega) ma fits
    obtain ⟨g, hg⟩ := ihb hb (by omega) mb fits
    have sum := (hf.natDegreeLe ha ma).sumFits (hg.natDegreeLe hb mb) (by omega)
    obtain ⟨h, hh⟩ := exists_add? hf.reduced hg.reduced sum
    exact ⟨h, .add hv hf hg sum hh⟩
  | sub a b iha ihb =>
    refine exists_ofExpr_cases he hw fun hv => ?_
    simp only [Expr.weight] at hw
    obtain ⟨ha, hb⟩ := he.sub
    have ma : DegreeLe a.poles m := hm.mono fun P => Nat.le_max_left _ _
    have mb : DegreeLe b.poles m := hm.mono fun P => Nat.le_max_right _ _
    obtain ⟨f, hf⟩ := iha ha (by omega) ma fits
    obtain ⟨g, hg⟩ := ihb hb (by omega) mb fits
    have sum := (hf.natDegreeLe ha ma).sumFits (hg.natDegreeLe hb mb).neg (by omega)
    obtain ⟨h, hh⟩ := exists_add? hf.reduced hg.reduced.neg sum
    exact ⟨h, .sub hv hf hg sum hh⟩
  | mul a b iha ihb =>
    refine exists_ofExpr_cases he hw fun hv => ?_
    simp only [Expr.weight] at hw
    obtain ⟨ha, hb⟩ := he.mul
    have ma : DegreeLe a.poles m := hm.mono fun P => Nat.le_add_right _ _
    have mb : DegreeLe b.poles m := hm.mono fun P => Nat.le_add_left _ _
    obtain ⟨f, hf⟩ := iha ha (by omega) ma fits
    obtain ⟨g, hg⟩ := ihb hb (by omega) mb fits
    have product := (hf.natDegreeLe ha ma).productFits (hg.natDegreeLe hb mb) (by omega)
    obtain ⟨h, hh⟩ := exists_mul? hf.reduced hg.reduced product
    exact ⟨h, .mul hv hf hg product hh⟩
  | div a b iha ihb =>
    refine exists_ofExpr_cases he hw fun hv => ?_
    have left := a.weight_false_le_baseWeight
    have right := b.weight_false_le_baseWeight
    rw [Expr.weight_div] at hw
    obtain ⟨ha, hb, nonzero⟩ := he.div
    have ma : DegreeLe a.poles m := hm.mono fun P => Nat.le_add_right _ _
    have mb : DegreeLe b.poles m :=
      (hb.degreeLe_zeros_iff nonzero).mp (hm.mono fun P => Nat.le_add_left _ _)
    obtain ⟨f, hf⟩ := iha ha (by omega) ma fits
    obtain ⟨g, hg⟩ := ihb hb (by omega) mb fits
    obtain ⟨t, ht⟩ := he.defined.exists
    obtain ⟨i, hi⟩ := exists_inverse? (hg.numer_ne_zero ht.2.1.denotes ht.2.2)
    have product := (hf.natDegreeLe ha ma).productFits ((hg.natDegreeLe hb mb).inverse hi) (by omega)
    obtain ⟨h, hh⟩ := exists_mul? hf.reduced (ofQuotient?_spec hi).2.1 product
    exact ⟨h, .div hv hf hg hi product hh⟩
  | pow a b iha _ =>
    refine exists_ofExpr_cases he hw fun hv => ?_
    obtain ⟨-, k, rfl⟩ := he.rational
    have base := a.weight_false_le_baseWeight
    have base_le := Nat.le_mul_of_pos_left a.baseWeight (Expr.one_le_cost k)
    have exponent := (Expr.natAbs_le_cost k).trans
      (Nat.le_mul_of_pos_right (Expr.cost k) a.one_le_baseWeight)
    rw [Expr.weight_pow, Expr.exponentCost_intCast] at hw
    obtain ⟨n, mn, n_le, power_le⟩ := he.degreeLe_base hm
    obtain ⟨f, hf⟩ := iha he.pow.1 (by omega) mn (by omega)
    have power := (hf.natDegreeLe he.pow.1 mn).powerFits (k := k) (by omega)
    have word : UInt32.size < UInt64.size := by decide
    have nonzero : 0 ≤ k ∨ f.numer.toPolynomial ≠ 0 := by
      obtain ⟨t, hat, -, power⟩ := he.defined.exists
      by_cases h0 : a.evalAt (Function.update (fun _ => 0) v t) = 0
      · rw [h0, Expr.evalAt, Rat.cast_intCast] at power
        exact .inl (by exact_mod_cast power.exponent_nonneg)
      · exact .inr (hf.numer_ne_zero hat.denotes h0)
    obtain ⟨h, hh⟩ := exists_power? hf.reduced (by omega) power nonzero
    exact ⟨h, .pow hv (Expr.signedInteger?_intCast k) hf power hh⟩
  | neg a ih =>
    refine exists_ofExpr_cases he hw fun hv => ?_
    obtain ⟨f, hf⟩ := ih he.neg hw hm fits
    exact ⟨f.neg, .neg hv hf⟩
  | sin a | cos a | tan a | exp a | log a => exact he.rational.elim

end RationalFunction

end Tutor
