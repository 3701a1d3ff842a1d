import Mathlib.Analysis.SpecialFunctions.Pow.Real
import Mathlib.Analysis.SpecialFunctions.Trigonometric.Basic
import Tutor.Expr.Basic

/-!
The real meaning of expressions. Under an assignment of reals to the variables an expression has a
value where it is defined: divisors are not zero, logarithms have positive arguments, tangents avoid
the zeros of the cosine, and powers are defined as in `PowerDefined`. A compound expression is defined
only if all its parts are.
-/

set_option autoImplicit false
set_option relaxedAutoImplicit false

namespace Tutor

/-- Where a real power is defined: a positive base takes every exponent, zero takes those that are not
negative (`0 ^ 0` is one), and a negative base takes integers only. -/
def PowerDefined (a b : ℝ) : Prop := 0 < a ∨ (a = 0 ∧ 0 ≤ b) ∨ (a < 0 ∧ ∃ n : ℤ, b = n)

namespace PowerDefined

variable {a p q : ℝ}

theorem of_pos (ha : 0 < a) (p : ℝ) : PowerDefined a p := .inl ha

theorem of_nonneg (ha : 0 ≤ a) (hp : 0 ≤ p) : PowerDefined a p := by
  rcases ha.lt_or_eq with h | h
  · exact .inl h
  · exact .inr (.inl ⟨h.symm, hp⟩)

theorem int_of_ne_zero (ha : a ≠ 0) (n : ℤ) : PowerDefined a n := by
  rcases lt_or_gt_of_ne ha with h | h
  · exact .inr (.inr ⟨h, n, rfl⟩)
  · exact .inl h

theorem int_of_nonneg (a : ℝ) {n : ℤ} (hn : 0 ≤ n) : PowerDefined a n := by
  rcases lt_trichotomy a 0 with h | h | h
  · exact .inr (.inr ⟨h, n, rfl⟩)
  · exact .inr (.inl ⟨h, by exact_mod_cast hn⟩)
  · exact .inl h

theorem one_right (a : ℝ) : PowerDefined a 1 := by
  simpa using int_of_nonneg a (n := 1) (by norm_num)

theorem exponent_nonneg (h : PowerDefined 0 p) : 0 ≤ p := by
  rcases h with h | ⟨-, h⟩ | ⟨h, -⟩
  · exact absurd h (lt_irrefl 0)
  · exact h
  · exact absurd h (lt_irrefl 0)

theorem exponent_int (h : PowerDefined a p) (ha : a < 0) : ∃ n : ℤ, p = n := by
  rcases h with h | ⟨h, -⟩ | ⟨-, h⟩
  · exact absurd (ha.trans h) (lt_irrefl a)
  · exact absurd h ha.ne
  · exact h

/-- The exponent of a defined power may be lowered by one, unless the base is zero and the exponent
below one. -/
theorem sub_one (hp : PowerDefined a p) (h : a ≠ 0 ∨ 1 ≤ p) : PowerDefined a (p - 1) := by
  rcases lt_trichotomy a 0 with hneg | rfl | hpos
  · obtain ⟨n, rfl⟩ := hp.exponent_int hneg
    simpa using int_of_ne_zero hneg.ne (n - 1)
  · exact of_nonneg le_rfl (sub_nonneg.mpr (h.resolve_left (by simp)))
  · exact of_pos hpos _

theorem add (hp : PowerDefined a p) (hq : PowerDefined a q) :
    PowerDefined a (p + q) ∧ a ^ (p + q) = a ^ p * a ^ q := by
  rcases lt_trichotomy a 0 with h | rfl | h
  · obtain ⟨m, rfl⟩ := hp.exponent_int h
    obtain ⟨n, rfl⟩ := hq.exponent_int h
    rw [← Int.cast_add]
    refine ⟨int_of_ne_zero h.ne _, ?_⟩
    rw [Real.rpow_intCast, Real.rpow_intCast, Real.rpow_intCast, zpow_add₀ h.ne]
  · have hp := hp.exponent_nonneg
    have hq := hq.exponent_nonneg
    exact ⟨of_nonneg le_rfl (add_nonneg hp hq), Real.rpow_add_of_nonneg le_rfl hp hq⟩
  · exact ⟨of_pos h _, Real.rpow_add h p q⟩

theorem mul_int {n : ℤ} (hp : PowerDefined a p) (hn : PowerDefined (a ^ p) n) :
    PowerDefined a (p * n) ∧ a ^ (p * n) = (a ^ p) ^ (n : ℝ) := by
  rcases lt_trichotomy a 0 with h | rfl | h
  · obtain ⟨m, rfl⟩ := hp.exponent_int h
    rw [← Int.cast_mul]
    refine ⟨int_of_ne_zero h.ne _, ?_⟩
    rw [Real.rpow_intCast, Real.rpow_intCast, Real.rpow_intCast, zpow_mul]
  · have hp := hp.exponent_nonneg
    rcases hp.eq_or_lt with rfl | hp
    · simpa using of_nonneg le_rfl le_rfl
    · rw [Real.zero_rpow hp.ne'] at hn ⊢
      have hn := hn.exponent_nonneg
      refine ⟨of_nonneg le_rfl (mul_nonneg hp.le hn), ?_⟩
      rw [Real.rpow_mul le_rfl, Real.zero_rpow hp.ne']
  · exact ⟨of_pos h _, Real.rpow_mul h.le p n⟩

end PowerDefined

namespace Expr

variable {ρ : String → ℝ} {a b e : Expr} {r : ℝ}

/-- The value of an expression, which counts only where the expression is defined. -/
noncomputable def evalAt (ρ : String → ℝ) : Expr → ℝ
  | .var v => ρ v
  | .const q => (q : ℝ)
  | .add a b => a.evalAt ρ + b.evalAt ρ
  | .sub a b => a.evalAt ρ - b.evalAt ρ
  | .mul a b => a.evalAt ρ * b.evalAt ρ
  | .div a b => a.evalAt ρ / b.evalAt ρ
  | .pow a b => a.evalAt ρ ^ b.evalAt ρ
  | .neg a => -a.evalAt ρ
  | .sin a => Real.sin (a.evalAt ρ)
  | .cos a => Real.cos (a.evalAt ρ)
  | .tan a => Real.tan (a.evalAt ρ)
  | .exp a => Real.exp (a.evalAt ρ)
  | .log a => Real.log (a.evalAt ρ)

def DefinedAt (ρ : String → ℝ) : Expr → Prop
  | .var _ | .const _ => True
  | .add a b | .sub a b | .mul a b => a.DefinedAt ρ ∧ b.DefinedAt ρ
  | .div a b => a.DefinedAt ρ ∧ b.DefinedAt ρ ∧ b.evalAt ρ ≠ 0
  | .pow a b => a.DefinedAt ρ ∧ b.DefinedAt ρ ∧ PowerDefined (a.evalAt ρ) (b.evalAt ρ)
  | .neg a | .sin a | .cos a | .exp a => a.DefinedAt ρ
  | .tan a => a.DefinedAt ρ ∧ Real.cos (a.evalAt ρ) ≠ 0
  | .log a => a.DefinedAt ρ ∧ 0 < a.evalAt ρ

structure Denotes (ρ : String → ℝ) (e : Expr) (r : ℝ) : Prop where
  defined : e.DefinedAt ρ
  value : e.evalAt ρ = r

theorem DefinedAt.denotes (h : e.DefinedAt ρ) : Denotes ρ e (e.evalAt ρ) := ⟨h, rfl⟩

theorem denotes_const (q : Rat) : Denotes ρ (.const q) q := ⟨trivial, rfl⟩

theorem denotes_zero : Denotes ρ .zero 0 := ⟨trivial, Rat.cast_zero⟩

theorem denotes_one : Denotes ρ .one 1 := ⟨trivial, Rat.cast_one⟩

/-! ### What the nodes denote -/

section Nodes

variable {f : ℝ → ℝ} {g : ℝ → ℝ → ℝ} {P : ℝ → Prop} {Q : ℝ → ℝ → Prop}

private theorem denotes_unary (defined : e.DefinedAt ρ ↔ a.DefinedAt ρ) (value : e.evalAt ρ = f (a.evalAt ρ)) :
    Denotes ρ e r ↔ ∃ x, Denotes ρ a x ∧ f x = r := by
  constructor
  · rintro ⟨he, rfl⟩
    exact ⟨_, (defined.mp he).denotes, value.symm⟩
  · rintro ⟨x, ⟨ha, rfl⟩, rfl⟩
    exact ⟨defined.mpr ha, value⟩

private theorem denotes_unary_where (defined : e.DefinedAt ρ ↔ a.DefinedAt ρ ∧ P (a.evalAt ρ))
    (value : e.evalAt ρ = f (a.evalAt ρ)) :
    Denotes ρ e r ↔ ∃ x, Denotes ρ a x ∧ P x ∧ f x = r := by
  constructor
  · rintro ⟨he, rfl⟩
    obtain ⟨ha, condition⟩ := defined.mp he
    exact ⟨_, ha.denotes, condition, value.symm⟩
  · rintro ⟨x, ⟨ha, rfl⟩, condition, rfl⟩
    exact ⟨defined.mpr ⟨ha, condition⟩, value⟩

private theorem denotes_binary (defined : e.DefinedAt ρ ↔ a.DefinedAt ρ ∧ b.DefinedAt ρ)
    (value : e.evalAt ρ = g (a.evalAt ρ) (b.evalAt ρ)) :
    Denotes ρ e r ↔ ∃ x y, Denotes ρ a x ∧ Denotes ρ b y ∧ g x y = r := by
  constructor
  · rintro ⟨he, rfl⟩
    obtain ⟨ha, hb⟩ := defined.mp he
    exact ⟨_, _, ha.denotes, hb.denotes, value.symm⟩
  · rintro ⟨x, y, ⟨ha, rfl⟩, ⟨hb, rfl⟩, rfl⟩
    exact ⟨defined.mpr ⟨ha, hb⟩, value⟩

private theorem denotes_binary_where
    (defined : e.DefinedAt ρ ↔ a.DefinedAt ρ ∧ b.DefinedAt ρ ∧ Q (a.evalAt ρ) (b.evalAt ρ))
    (value : e.evalAt ρ = g (a.evalAt ρ) (b.evalAt ρ)) :
    Denotes ρ e r ↔ ∃ x y, Denotes ρ a x ∧ Denotes ρ b y ∧ Q x y ∧ g x y = r := by
  constructor
  · rintro ⟨he, rfl⟩
    obtain ⟨ha, hb, condition⟩ := defined.mp he
    exact ⟨_, _, ha.denotes, hb.denotes, condition, value.symm⟩
  · rintro ⟨x, y, ⟨ha, rfl⟩, ⟨hb, rfl⟩, condition, rfl⟩
    exact ⟨defined.mpr ⟨ha, hb, condition⟩, value⟩

end Nodes

theorem denotes_add : Denotes ρ (.add a b) r ↔
    ∃ x y, Denotes ρ a x ∧ Denotes ρ b y ∧ x + y = r :=
  denotes_binary Iff.rfl rfl

theorem denotes_sub : Denotes ρ (.sub a b) r ↔
    ∃ x y, Denotes ρ a x ∧ Denotes ρ b y ∧ x - y = r :=
  denotes_binary Iff.rfl rfl

theorem denotes_mul : Denotes ρ (.mul a b) r ↔
    ∃ x y, Denotes ρ a x ∧ Denotes ρ b y ∧ x * y = r :=
  denotes_binary Iff.rfl rfl

theorem denotes_div : Denotes ρ (.div a b) r ↔
    ∃ x y, Denotes ρ a x ∧ Denotes ρ b y ∧ y ≠ 0 ∧ x / y = r :=
  denotes_binary_where Iff.rfl rfl

theorem denotes_pow : Denotes ρ (.pow a b) r ↔
    ∃ x y, Denotes ρ a x ∧ Denotes ρ b y ∧ PowerDefined x y ∧ x ^ y = r :=
  denotes_binary_where Iff.rfl rfl

theorem denotes_pow_const {q : Rat} : Denotes ρ (.pow a (.const q)) r ↔
    ∃ x, Denotes ρ a x ∧ PowerDefined x q ∧ x ^ (q : ℝ) = r := by
  refine denotes_unary_where ?_ rfl
  exact and_congr_right fun _ => and_iff_right trivial

theorem denotes_neg : Denotes ρ (.neg a) r ↔ ∃ x, Denotes ρ a x ∧ -x = r :=
  denotes_unary Iff.rfl rfl

theorem denotes_sin : Denotes ρ (.sin a) r ↔ ∃ x, Denotes ρ a x ∧ Real.sin x = r :=
  denotes_unary Iff.rfl rfl

theorem denotes_cos : Denotes ρ (.cos a) r ↔ ∃ x, Denotes ρ a x ∧ Real.cos x = r :=
  denotes_unary Iff.rfl rfl

theorem denotes_tan : Denotes ρ (.tan a) r ↔
    ∃ x, Denotes ρ a x ∧ Real.cos x ≠ 0 ∧ Real.tan x = r :=
  denotes_unary_where Iff.rfl rfl

theorem denotes_exp : Denotes ρ (.exp a) r ↔ ∃ x, Denotes ρ a x ∧ Real.exp x = r :=
  denotes_unary Iff.rfl rfl

theorem denotes_log : Denotes ρ (.log a) r ↔
    ∃ x, Denotes ρ a x ∧ 0 < x ∧ Real.log x = r :=
  denotes_unary_where Iff.rfl rfl

theorem evalAt_update {v : String} (h : e.mentions v = false) (t : ℝ) :
    e.evalAt (Function.update ρ v t) = e.evalAt ρ := by
  induction e with
  | var name =>
    have hne : name ≠ v := by simpa [mentions] using h
    exact Function.update_of_ne hne t ρ
  | const q => rfl
  | add a b iha ihb | sub a b iha ihb | mul a b iha ihb | div a b iha ihb | pow a b iha ihb =>
    simp only [mentions, Bool.or_eq_false_iff] at h
    simp only [evalAt, iha h.1, ihb h.2]
  | neg a ih | sin a ih | cos a ih | tan a ih | exp a ih | log a ih =>
    simp only [mentions] at h
    simp only [evalAt, ih h]

theorem definedAt_update {v : String} (h : e.mentions v = false) (t : ℝ) :
    e.DefinedAt (Function.update ρ v t) ↔ e.DefinedAt ρ := by
  induction e with
  | var name => exact Iff.rfl
  | const q => exact Iff.rfl
  | add a b iha ihb | sub a b iha ihb | mul a b iha ihb | div a b iha ihb | pow a b iha ihb =>
    simp only [mentions, Bool.or_eq_false_iff] at h
    simp only [DefinedAt, iha h.1, ihb h.2, evalAt_update h.1, evalAt_update h.2]
  | neg a ih | sin a ih | cos a ih | tan a ih | exp a ih | log a ih =>
    simp only [mentions] at h
    simp only [DefinedAt, ih h, evalAt_update h]

end Expr

end Tutor
