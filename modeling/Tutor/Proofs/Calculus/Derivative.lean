import Mathlib
import Tutor.Calculus.Derivative
import Tutor.Proofs.Simplify.Pass

/-!
The symbolic derivative is the derivative: at an assignment where an expression is defined and its
powers are differentiable, its derivative in a variable is defined and denotes the derivative of the
function that the expression denotes. The domain of that function is a neighbourhood of the assignment
unless a power with a fractional exponent has base zero there.
-/

set_option autoImplicit false
set_option relaxedAutoImplicit false

namespace Tutor

open Filter Topology

/-- The conditions that make a power defined hold near the base too, unless the base is zero under a
fractional exponent. -/
private theorem PowerDefined.eventually {x y : ℝ} (h : PowerDefined x y) (h0 : x ≠ 0 ∨ 1 ≤ y)
    (hint : x = 0 → ∃ n : ℤ, y = n) : ∀ᶠ z in 𝓝 x, PowerDefined z y := by
  rcases lt_trichotomy x 0 with hneg | rfl | hpos
  · obtain ⟨n, rfl⟩ := h.exponent_int hneg
    filter_upwards [isOpen_ne.mem_nhds hneg.ne] with z hz
    exact .int_of_ne_zero hz n
  · obtain ⟨n, rfl⟩ := hint rfl
    exact .of_forall fun z => .int_of_nonneg z (by exact_mod_cast h.exponent_nonneg)
  · filter_upwards [lt_mem_nhds hpos] with z hz
    exact .of_pos hz y

namespace Expr

variable {v : String} {ρ : String → ℝ} {a b e : Expr} {x y : ℝ}

/-- The powers in which a variable occurs have bases and exponents at which the rules for powers hold:
under an exponent with the variable the base is positive; under one without it the base is positive, or
not zero and the exponent an integer, or the exponent is at least one. -/
def PowersDifferentiable (v : String) (ρ : String → ℝ) : Expr → Prop
  | .var _ | .const _ => True
  | .add a b | .sub a b | .mul a b | .div a b =>
    a.PowersDifferentiable v ρ ∧ b.PowersDifferentiable v ρ
  | .pow a b =>
    a.PowersDifferentiable v ρ ∧ b.PowersDifferentiable v ρ ∧
      ((Expr.pow a b).mentions v = true →
        if b.mentions v = true then 0 < a.evalAt ρ
        else 0 < a.evalAt ρ ∨ ((∃ n : ℤ, b.evalAt ρ = n) ∧ a.evalAt ρ ≠ 0) ∨ 1 ≤ b.evalAt ρ)
  | .neg a | .sin a | .cos a | .tan a | .exp a | .log a => a.PowersDifferentiable v ρ

/-- Wherever the base of a power has the variable and is zero, the exponent is an integer. -/
def ZeroBasesIntegral (v : String) (ρ : String → ℝ) : Expr → Prop
  | .var _ | .const _ => True
  | .add a b | .sub a b | .mul a b | .div a b => a.ZeroBasesIntegral v ρ ∧ b.ZeroBasesIntegral v ρ
  | .pow a b =>
    a.ZeroBasesIntegral v ρ ∧ b.ZeroBasesIntegral v ρ ∧
      (a.mentions v = true → a.evalAt ρ = 0 → ∃ n : ℤ, b.evalAt ρ = n)
  | .neg a | .sin a | .cos a | .tan a | .exp a | .log a => a.ZeroBasesIntegral v ρ

/-- As a function of one variable, the value of an expression has this derivative at the assignment. -/
def HasDerivative (v : String) (ρ : String → ℝ) (e : Expr) (r : ℝ) : Prop :=
  HasDerivAt (fun t => e.evalAt (Function.update ρ v t)) r (ρ v)

namespace HasDerivative

private theorem evalAt_self (v : String) (ρ : String → ℝ) (e : Expr) :
    e.evalAt (Function.update ρ v (ρ v)) = e.evalAt ρ := by
  rw [Function.update_eq_self]

private theorem eventually (ha : HasDerivative v ρ a x) {P : ℝ → Prop}
    (hP : ∀ᶠ z in 𝓝 (a.evalAt ρ), P z) :
    ∀ᶠ t in 𝓝 (ρ v), P (a.evalAt (Function.update ρ v t)) := by
  rw [← evalAt_self v ρ a] at hP
  exact (HasDerivAt.continuousAt ha).eventually hP

private theorem of_not_mentions (h : e.mentions v = false) : HasDerivative v ρ e 0 := by
  simp only [HasDerivative, evalAt_update h]
  exact hasDerivAt_const _ _

theorem var (v : String) (ρ : String → ℝ) : HasDerivative v ρ (.var v) 1 := by
  simp only [HasDerivative, evalAt, Function.update_self]
  exact hasDerivAt_id _

theorem add (ha : HasDerivative v ρ a x) (hb : HasDerivative v ρ b y) :
    HasDerivative v ρ (.add a b) (x + y) := HasDerivAt.add ha hb

theorem sub (ha : HasDerivative v ρ a x) (hb : HasDerivative v ρ b y) :
    HasDerivative v ρ (.sub a b) (x - y) := HasDerivAt.sub ha hb

theorem mul (ha : HasDerivative v ρ a x) (hb : HasDerivative v ρ b y) :
    HasDerivative v ρ (.mul a b) (x * b.evalAt ρ + a.evalAt ρ * y) := by
  have product := HasDerivAt.mul ha hb
  rw [evalAt_self, evalAt_self] at product
  exact product

theorem div (ha : HasDerivative v ρ a x) (hb : HasDerivative v ρ b y) (h0 : b.evalAt ρ ≠ 0) :
    HasDerivative v ρ (.div a b)
      ((x * b.evalAt ρ - a.evalAt ρ * y) / b.evalAt ρ ^ (2 : ℝ)) := by
  have quotient := HasDerivAt.div ha hb (by rwa [evalAt_self])
  rw [evalAt_self, evalAt_self] at quotient
  rw [Real.rpow_two]
  exact quotient

theorem pow (ha : HasDerivative v ρ a x) (hb : HasDerivative v ρ b y) (hpos : 0 < a.evalAt ρ) :
    HasDerivative v ρ (.pow a b) (a.evalAt ρ ^ b.evalAt ρ *
      (y * Real.log (a.evalAt ρ) + b.evalAt ρ * x / a.evalAt ρ)) := by
  have power := HasDerivAt.rpow ha hb (by rwa [evalAt_self])
  rw [evalAt_self, evalAt_self] at power
  refine power.congr_deriv ?_
  rw [Real.rpow_sub_one hpos.ne']
  ring

private theorem pow_const (ha : HasDerivative v ρ a x) (hb : b.mentions v = false)
    (h : a.evalAt ρ ≠ 0 ∨ 1 ≤ b.evalAt ρ) :
    HasDerivative v ρ (.pow a b) (b.evalAt ρ * a.evalAt ρ ^ (b.evalAt ρ - 1) * x) := by
  have power := HasDerivAt.rpow_const ha (p := b.evalAt ρ) (by rwa [evalAt_self])
  rw [evalAt_self] at power
  simp only [HasDerivative, evalAt, evalAt_update hb]
  refine power.congr_deriv ?_
  ring

theorem neg (ha : HasDerivative v ρ a x) : HasDerivative v ρ (.neg a) (-x) := HasDerivAt.neg ha

theorem sin (ha : HasDerivative v ρ a x) :
    HasDerivative v ρ (.sin a) (x * Real.cos (a.evalAt ρ)) := by
  have outer := HasDerivAt.sin ha
  rw [evalAt_self, mul_comm] at outer
  exact outer

theorem cos (ha : HasDerivative v ρ a x) :
    HasDerivative v ρ (.cos a) (-(x * Real.sin (a.evalAt ρ))) := by
  have outer := HasDerivAt.cos ha
  rw [evalAt_self] at outer
  refine outer.congr_deriv ?_
  ring

theorem tan (ha : HasDerivative v ρ a x) (h0 : Real.cos (a.evalAt ρ) ≠ 0) :
    HasDerivative v ρ (.tan a) (x * (1 / Real.cos (a.evalAt ρ) ^ (2 : ℝ))) := by
  have outer := (Real.hasDerivAt_tan (x := a.evalAt (Function.update ρ v (ρ v)))
    (by rwa [evalAt_self])).comp (ρ v) ha
  rw [evalAt_self, mul_comm] at outer
  rw [Real.rpow_two]
  exact outer

theorem exp (ha : HasDerivative v ρ a x) :
    HasDerivative v ρ (.exp a) (x * Real.exp (a.evalAt ρ)) := by
  have outer := HasDerivAt.exp ha
  rw [evalAt_self, mul_comm] at outer
  exact outer

theorem log (ha : HasDerivative v ρ a x) (hpos : 0 < a.evalAt ρ) :
    HasDerivative v ρ (.log a) (x / a.evalAt ρ) := by
  have outer := HasDerivAt.log ha (by rw [evalAt_self]; exact hpos.ne')
  rw [evalAt_self] at outer
  exact outer

end HasDerivative

/-! The rules of calculus denote what they stand for, given what their parts denote. -/

section Rules

variable {da db : Expr} {p q : ℝ}

private theorem denotes_productRule (ha : Denotes ρ a x) (hb : Denotes ρ b y) (hda : Denotes ρ da p)
    (hdb : Denotes ρ db q) : Denotes ρ (productRule a b da db) (p * y + x * q) :=
  denotes_simplify (denotes_add.mpr ⟨_, _, denotes_mul.mpr ⟨_, _, hda, hb, rfl⟩,
    denotes_mul.mpr ⟨_, _, ha, hdb, rfl⟩, rfl⟩)

private theorem denotes_square (ha : Denotes ρ a x) : Denotes ρ a.square (x ^ (2 : ℝ)) :=
  denotes_pow_const.mpr ⟨x, ha, by simpa using PowerDefined.int_of_nonneg x (n := 2) (by simp),
    by simp⟩

/-- The rule for quotients sees its parts simplified, so it is right also where only their simplified
forms have a value. -/
theorem denotes_quotientRule_of_simplified (ha : Denotes ρ a.simplify x) (hb : Denotes ρ b.simplify y)
    (hda : Denotes ρ da p) (hdb : Denotes ρ db q) (h0 : y ≠ 0) (hq : b.mentions v = false → q = 0) :
    Denotes ρ (quotientRule v a b da db) ((p * y - x * q) / y ^ (2 : ℝ)) := by
  rw [quotientRule]
  split_ifs with hv
  · have square : y ^ (2 : ℝ) ≠ 0 := by
      rw [Real.rpow_two]
      exact pow_ne_zero 2 h0
    have power : Denotes ρ (Simplify.pow b.simplify (.const 2)) (y ^ (2 : ℝ)) :=
      Simplify.denotes_pow hb ⟨trivial, by simp [evalAt]⟩
        (by simpa using PowerDefined.int_of_nonneg y (n := 2) (by simp))
    exact Simplify.denotes_div (Simplify.denotes_sub (Simplify.denotes_mul (denotes_simplify hda) hb)
      (Simplify.denotes_mul ha (denotes_simplify hdb))) power square
  · have value : (p * y - x * q) / y ^ (2 : ℝ) = p / y := by
      rw [hq (by simpa using hv), Real.rpow_two, mul_zero, sub_zero]
      field_simp
    rw [value]
    exact Simplify.denotes_div (denotes_simplify hda) hb h0

private theorem denotes_quotientRule (ha : Denotes ρ a x) (hb : Denotes ρ b y) (hda : Denotes ρ da p)
    (hdb : Denotes ρ db q) (h0 : y ≠ 0) (hq : b.mentions v = false → q = 0) :
    Denotes ρ (quotientRule v a b da db) ((p * y - x * q) / y ^ (2 : ℝ)) :=
  denotes_quotientRule_of_simplified (denotes_simplify ha) (denotes_simplify hb) hda hdb h0 hq

private theorem denotes_powerRule_of_mentions (ha : Denotes ρ a x) (hb : Denotes ρ b y)
    (hda : Denotes ρ da p) (hdb : Denotes ρ db q) (hv : b.mentions v = true) (hpos : 0 < x) :
    Denotes ρ (powerRule v a b da db) (x ^ y * (q * Real.log x + y * p / x)) := by
  rw [powerRule, if_pos hv]
  exact denotes_simplify (denotes_mul.mpr ⟨_, _,
    denotes_pow.mpr ⟨_, _, ha, hb, .of_pos hpos y, rfl⟩,
    denotes_add.mpr ⟨_, _,
      denotes_mul.mpr ⟨_, _, hdb, denotes_log.mpr ⟨_, ha, hpos, rfl⟩, rfl⟩,
      denotes_div.mpr ⟨_, _, denotes_mul.mpr ⟨_, _, hb, hda, rfl⟩, ha, hpos.ne', rfl⟩, rfl⟩, rfl⟩)

private theorem denotes_powerRule_of_not_mentions (ha : Denotes ρ a x) (hb : Denotes ρ b y)
    (hda : Denotes ρ da p) (hv : b.mentions v = false) (hp : PowerDefined x y)
    (h : x ≠ 0 ∨ 1 ≤ y) : Denotes ρ (powerRule v a b da db) (y * x ^ (y - 1) * p) := by
  have exponent : Denotes ρ (Expr.sub b .one).simplify (y - 1) :=
    denotes_simplify (denotes_sub.mpr ⟨_, _, hb, denotes_one, rfl⟩)
  rw [powerRule, if_neg (by simp [hv])]
  exact denotes_simplify (denotes_mul.mpr ⟨_, _,
    denotes_mul.mpr ⟨_, _, hb, denotes_pow.mpr ⟨_, _, ha, exponent, hp.sub_one h, rfl⟩, rfl⟩,
    hda, rfl⟩)

private theorem denotes_chainRule {outer : Expr} (hda : Denotes ρ da p) (ho : Denotes ρ outer y) :
    Denotes ρ (chainRule da outer) (p * y) :=
  denotes_simplify (denotes_mul.mpr ⟨_, _, hda, ho, rfl⟩)

end Rules

theorem derivative_of_not_mentions (h : e.mentions v = false) : derivative v e = .zero := by
  rw [derivative.eq_def, if_pos h]

private theorem derivative_cases
    (rule : ¬e.mentions v = false → ∃ r, Denotes ρ (derivative v e) r ∧ HasDerivative v ρ e r) :
    ∃ r, Denotes ρ (derivative v e) r ∧ HasDerivative v ρ e r := by
  by_cases hv : e.mentions v = false
  · rw [derivative_of_not_mentions hv]
    exact ⟨0, denotes_zero, .of_not_mentions hv⟩
  · exact rule hv

/-- A power with a base and an exponent at which its rule holds is no zero base with an exponent below
one. -/
private theorem base_ne_zero_or (h : 0 < x ∨ ((∃ n : ℤ, y = n) ∧ x ≠ 0) ∨ 1 ≤ y) : x ≠ 0 ∨ 1 ≤ y := by
  rcases h with h | ⟨-, h⟩ | h
  · exact .inl h.ne'
  · exact .inl h
  · exact .inr h

theorem exists_derivative (he : e.DefinedAt ρ) (hp : e.PowersDifferentiable v ρ) :
    ∃ r, Denotes ρ (derivative v e) r ∧ HasDerivative v ρ e r := by
  induction e with
  | var name =>
    refine derivative_cases fun hv => ?_
    obtain rfl : name = v := by simpa [mentions] using hv
    rw [derivative, if_neg hv]
    exact ⟨1, denotes_one, .var name ρ⟩
  | const q =>
    rw [derivative_of_not_mentions rfl]
    exact ⟨0, denotes_zero, .of_not_mentions rfl⟩
  | add a b iha ihb =>
    refine derivative_cases fun hv => ?_
    obtain ⟨p, hda, ha⟩ := iha he.1 hp.1
    obtain ⟨q, hdb, hb⟩ := ihb he.2 hp.2
    rw [derivative, if_neg hv]
    exact ⟨_, Simplify.denotes_add hda hdb, ha.add hb⟩
  | sub a b iha ihb =>
    refine derivative_cases fun hv => ?_
    obtain ⟨p, hda, ha⟩ := iha he.1 hp.1
    obtain ⟨q, hdb, hb⟩ := ihb he.2 hp.2
    rw [derivative, if_neg hv]
    exact ⟨_, Simplify.denotes_sub hda hdb, ha.sub hb⟩
  | mul a b iha ihb =>
    refine derivative_cases fun hv => ?_
    obtain ⟨p, hda, ha⟩ := iha he.1 hp.1
    obtain ⟨q, hdb, hb⟩ := ihb he.2 hp.2
    rw [derivative, if_neg hv]
    exact ⟨_, denotes_productRule he.1.denotes he.2.denotes hda hdb, ha.mul hb⟩
  | div a b iha ihb =>
    refine derivative_cases fun hv => ?_
    obtain ⟨ha', hb', h0⟩ := he
    obtain ⟨p, hda, ha⟩ := iha ha' hp.1
    obtain ⟨q, hdb, hb⟩ := ihb hb' hp.2
    have free (hbv : b.mentions v = false) : q = 0 := by
      rw [← hdb.value, derivative_of_not_mentions hbv]
      exact denotes_zero.value
    rw [derivative, if_neg hv]
    exact ⟨_, denotes_quotientRule ha'.denotes hb'.denotes hda hdb h0 free, ha.div hb h0⟩
  | pow a b iha ihb =>
    refine derivative_cases fun hv => ?_
    obtain ⟨ha', hb', power⟩ := he
    obtain ⟨hpa, hpb, bases⟩ := hp
    obtain ⟨p, hda, ha⟩ := iha ha' hpa
    obtain ⟨q, hdb, hb⟩ := ihb hb' hpb
    have bases := bases (by simpa using hv)
    rw [derivative, if_neg hv]
    split_ifs at bases with hbv
    · exact ⟨_, denotes_powerRule_of_mentions ha'.denotes hb'.denotes hda hdb hbv bases,
        ha.pow hb bases⟩
    · have hbv : b.mentions v = false := by simpa using hbv
      have nonzero := base_ne_zero_or bases
      exact ⟨_, denotes_powerRule_of_not_mentions ha'.denotes hb'.denotes hda hbv power nonzero,
        ha.pow_const hbv nonzero⟩
  | neg a ih =>
    refine derivative_cases fun hv => ?_
    obtain ⟨p, hda, ha⟩ := ih he hp
    rw [derivative, if_neg hv]
    exact ⟨_, denotes_simplify (denotes_neg.mpr ⟨_, hda, rfl⟩), ha.neg⟩
  | sin a ih =>
    refine derivative_cases fun hv => ?_
    obtain ⟨p, hda, ha⟩ := ih he hp
    rw [derivative, if_neg hv]
    exact ⟨_, denotes_chainRule hda (denotes_cos.mpr ⟨_, DefinedAt.denotes he, rfl⟩), ha.sin⟩
  | cos a ih =>
    refine derivative_cases fun hv => ?_
    obtain ⟨p, hda, ha⟩ := ih he hp
    rw [derivative, if_neg hv]
    exact ⟨_, denotes_simplify (denotes_neg.mpr
      ⟨_, denotes_chainRule hda (denotes_sin.mpr ⟨_, DefinedAt.denotes he, rfl⟩), rfl⟩), ha.cos⟩
  | tan a ih =>
    refine derivative_cases fun hv => ?_
    obtain ⟨ha', h0⟩ := he
    obtain ⟨p, hda, ha⟩ := ih ha' hp
    have square : Real.cos (a.evalAt ρ) ^ (2 : ℝ) ≠ 0 := by
      rw [Real.rpow_two]
      exact pow_ne_zero 2 h0
    rw [derivative, if_neg hv]
    exact ⟨_, denotes_chainRule hda (denotes_div.mpr ⟨_, _, denotes_one,
      denotes_square (denotes_cos.mpr ⟨_, ha'.denotes, rfl⟩), square, rfl⟩), ha.tan h0⟩
  | exp a ih =>
    refine derivative_cases fun hv => ?_
    obtain ⟨p, hda, ha⟩ := ih he hp
    rw [derivative, if_neg hv]
    exact ⟨_, denotes_chainRule hda (denotes_exp.mpr ⟨_, DefinedAt.denotes he, rfl⟩), ha.exp⟩
  | log a ih =>
    refine derivative_cases fun hv => ?_
    obtain ⟨ha', hpos⟩ := he
    obtain ⟨p, hda, ha⟩ := ih ha' hp
    rw [derivative, if_neg hv]
    exact ⟨_, denotes_simplify (denotes_div.mpr ⟨_, _, hda, ha'.denotes, hpos.ne', rfl⟩),
      ha.log hpos⟩

private theorem eventually_definedAt (he : e.DefinedAt ρ) (hp : e.PowersDifferentiable v ρ)
    (hz : e.ZeroBasesIntegral v ρ) : ∀ᶠ t in 𝓝 (ρ v), e.DefinedAt (Function.update ρ v t) := by
  induction e with
  | var name => exact .of_forall fun _ => trivial
  | const q => exact .of_forall fun _ => trivial
  | add a b iha ihb | sub a b iha ihb | mul a b iha ihb =>
    exact (iha he.1 hp.1 hz.1).and (ihb he.2 hp.2 hz.2)
  | div a b iha ihb =>
    obtain ⟨ha, hb, h0⟩ := he
    obtain ⟨q, -, continuous⟩ := exists_derivative hb hp.2
    exact (iha ha hp.1 hz.1).and ((ihb hb hp.2 hz.2).and
      (continuous.eventually (isOpen_ne.mem_nhds h0)))
  | pow a b iha ihb =>
    by_cases hv : (Expr.pow a b).mentions v = false
    · exact .of_forall fun t => (definedAt_update hv t).mpr he
    · obtain ⟨ha, hb, power⟩ := he
      obtain ⟨hpa, hpb, bases⟩ := hp
      obtain ⟨p, -, continuous⟩ := exists_derivative ha hpa
      have bases := bases (by simpa using hv)
      split_ifs at bases with hbv
      · filter_upwards [iha ha hpa hz.1, ihb hb hpb hz.2.1,
          continuous.eventually (lt_mem_nhds bases)] with t hat hbt hpos
        exact ⟨hat, hbt, .of_pos hpos _⟩
      · have hbv : b.mentions v = false := by simpa using hbv
        have hav : a.mentions v = true := by simpa [mentions, hbv] using hv
        filter_upwards [iha ha hpa hz.1, ihb hb hpb hz.2.1, continuous.eventually
          (power.eventually (base_ne_zero_or bases) (hz.2.2 hav))] with t hat hbt hpow
        exact ⟨hat, hbt, by rwa [evalAt_update hbv]⟩
  | neg a ih | sin a ih | cos a ih | exp a ih => exact ih he hp hz
  | tan a ih =>
    obtain ⟨ha, h0⟩ := he
    obtain ⟨p, -, continuous⟩ := exists_derivative ha hp
    exact (ih ha hp hz).and
      (continuous.eventually (Real.continuous_cos.continuousAt.eventually_ne h0))
  | log a ih =>
    obtain ⟨ha, hpos⟩ := he
    obtain ⟨p, -, continuous⟩ := exists_derivative ha hp
    exact (ih ha hp hz).and (continuous.eventually (lt_mem_nhds hpos))

def domainIn (v : String) (ρ : String → ℝ) (e : Expr) : Set ℝ :=
  {t | e.DefinedAt (Function.update ρ v t)}

/-- The symbolic derivative of an expression is defined where the expression is, its powers being
differentiable there, and its value is the derivative of the function that the expression denotes, on
the domain of that function. This domain is a neighbourhood, and so the derivative two-sided, if zero
bases have integer exponents. -/
theorem derivative_denotes_derivative (e : Expr) (v : String) (ρ : String → ℝ)
    (he : e.DefinedAt ρ) (hp : e.PowersDifferentiable v ρ) :
    (derivative v e).DefinedAt ρ ∧
      HasDerivWithinAt (fun t => e.evalAt (Function.update ρ v t)) ((derivative v e).evalAt ρ)
        (e.domainIn v ρ) (ρ v) ∧
      (e.ZeroBasesIntegral v ρ → e.domainIn v ρ ∈ 𝓝 (ρ v) ∧
        HasDerivAt (fun t => e.evalAt (Function.update ρ v t)) ((derivative v e).evalAt ρ) (ρ v)) := by
  obtain ⟨r, ⟨defined, rfl⟩, hr⟩ := exists_derivative he hp
  exact ⟨defined, hr.hasDerivWithinAt, fun hz => ⟨eventually_definedAt he hp hz, hr⟩⟩

/-- A negative base under an exponent that is another variable: `x ^ n` at `x = -2`, `n = 3`. -/
theorem derivative_denotes_derivative_negative_base :
    let e : Expr := .pow (.var "x") (.var "n")
    let ρ : String → ℝ := fun v => if v = "n" then 3 else -2
    e.DefinedAt ρ ∧ e.PowersDifferentiable "x" ρ ∧ e.ZeroBasesIntegral "x" ρ ∧
      (derivative "x" e).DefinedAt ρ ∧ e.domainIn "x" ρ ∈ 𝓝 (-2) ∧
      HasDerivAt (fun t => e.evalAt (Function.update ρ "x" t)) ((derivative "x" e).evalAt ρ) (-2) := by
  intro e ρ
  have base : (Expr.var "x").evalAt ρ = -2 := by simp [ρ, evalAt]
  have exponent : (Expr.var "n").evalAt ρ = (3 : ℤ) := by simp [ρ, evalAt]
  have he : e.DefinedAt ρ := by
    refine ⟨trivial, trivial, ?_⟩
    rw [base, exponent]
    exact .int_of_ne_zero (by norm_num) 3
  have hp : e.PowersDifferentiable "x" ρ := by
    refine ⟨trivial, trivial, fun _ => ?_⟩
    rw [if_neg (by decide), base, exponent]
    exact .inr (.inl ⟨⟨3, rfl⟩, by norm_num⟩)
  have hz : e.ZeroBasesIntegral "x" ρ := ⟨trivial, trivial, fun _ _ => ⟨3, exponent⟩⟩
  obtain ⟨defined, -, twoSided⟩ := derivative_denotes_derivative e "x" ρ he hp
  obtain ⟨domain, derivative⟩ := twoSided hz
  exact ⟨he, hp, hz, defined, domain, derivative⟩

end Expr

end Tutor
