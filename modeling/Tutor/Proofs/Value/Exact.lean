import Tutor.Proofs.Simplify.Power
import Tutor.Value.Exact

/-!
An exact value is the real value: where an expression without variables has one, it denotes it, whatever
the assignment. Putting an expression in the place of a variable is the same as giving the variable its
value, so exact values after a substitution are values of the function that an expression denotes.
-/

set_option autoImplicit false
set_option relaxedAutoImplicit false

namespace Tutor.Expr

open Simplify (cast_of_den_eq_one root_power)
open Number (exactRationalSqrt?_spec)

variable {ρ : String → ℝ} {e : Expr} {v : String} {q : Rat}

/-! ### Exact values -/

private theorem denotes_integer_power {root c : Rat} {k : Int}
    (h : (if 0x80000000 ≤ k.natAbs then none
      else if 0 ≤ k then some (root ^ k.natAbs)
      else if root = 0 then none
      else some (root⁻¹ ^ k.natAbs)) = some c) :
    PowerDefined root k ∧ (root : ℝ) ^ (k : ℝ) = c := by
  rw [Real.rpow_intCast]
  split_ifs at h with _ hk h0
  · obtain rfl := Option.some.inj h
    refine ⟨.int_of_nonneg _ hk, ?_⟩
    rw [Rat.cast_pow, ← zpow_natCast, Int.natAbs_of_nonneg hk]
  · obtain rfl := Option.some.inj h
    have hroot : (root : ℝ) ≠ 0 := by exact_mod_cast h0
    have hk : k = -(k.natAbs : Int) := by omega
    refine ⟨.int_of_ne_zero hroot k, ?_⟩
    rw [Rat.cast_pow, Rat.cast_inv, inv_pow, ← zpow_natCast, ← zpow_neg, ← hk]

private theorem exactPower?_spec {b x c : Rat} (h : exactPower? b x = some c) :
    PowerDefined b x ∧ (b : ℝ) ^ (x : ℝ) = c := by
  rw [exactPower?, Option.bind_eq_bind, Option.bind_eq_some_iff] at h
  obtain ⟨root, hroot, h⟩ := h
  obtain ⟨defined, value⟩ := denotes_integer_power h
  unfold powerBase? at hroot
  split_ifs at hroot with h1 h2
  · obtain rfl := Option.some.inj hroot
    rw [cast_of_den_eq_one h1]
    exact ⟨defined, value⟩
  · obtain ⟨nonneg, square⟩ := exactRationalSqrt?_spec hroot
    have power : PowerDefined b x := by
      rcases nonneg.eq_or_lt with h0 | hpos
      · have hnum : 0 ≤ x.num := by
          rw [← h0, Rat.cast_zero] at defined
          exact_mod_cast defined.exponent_nonneg
        have hx : (0 : ℝ) ≤ x := by exact_mod_cast Rat.num_nonneg.mp hnum
        rw [← square, ← h0, mul_zero, Rat.cast_zero]
        exact .of_nonneg le_rfl hx
      · have hb : (0 : ℝ) < b := by
          rw [← square]
          exact_mod_cast mul_pos hpos hpos
        exact .of_pos hb _
    obtain ⟨-, same⟩ := root_power h2 hroot power
    exact ⟨power, same.symm.trans value⟩

/-- An expression denotes its exact value, under every assignment. -/
theorem denotes_of_exactValue? (h : e.exactValue? = some q) (ρ : String → ℝ) : Denotes ρ e q := by
  induction e generalizing q with
  | const c =>
    obtain rfl := Option.some.inj h
    exact denotes_const c
  | var name => cases h
  | add a b iha ihb =>
    simp only [exactValue?, Option.bind_eq_bind, Option.bind_eq_some_iff,
      Option.pure_def, Option.some.injEq] at h
    obtain ⟨x, hx, y, hy, rfl⟩ := h
    exact denotes_add.mpr ⟨x, y, iha hx, ihb hy, (Rat.cast_add x y).symm⟩
  | sub a b iha ihb =>
    simp only [exactValue?, Option.bind_eq_bind, Option.bind_eq_some_iff,
      Option.pure_def, Option.some.injEq] at h
    obtain ⟨x, hx, y, hy, rfl⟩ := h
    exact denotes_sub.mpr ⟨x, y, iha hx, ihb hy, (Rat.cast_sub x y).symm⟩
  | mul a b iha ihb =>
    simp only [exactValue?, Option.bind_eq_bind, Option.bind_eq_some_iff,
      Option.pure_def, Option.some.injEq] at h
    obtain ⟨x, hx, y, hy, rfl⟩ := h
    exact denotes_mul.mpr ⟨x, y, iha hx, ihb hy, (Rat.cast_mul x y).symm⟩
  | div a b iha ihb =>
    simp only [exactValue?, exactQuotient?, Option.bind_eq_bind, Option.bind_eq_some_iff,
      Option.ite_none_left_eq_some, Option.some.injEq] at h
    obtain ⟨x, hx, y, hy, h0, rfl⟩ := h
    have hy0 : (y : ℝ) ≠ 0 := by exact_mod_cast h0
    exact denotes_div.mpr ⟨x, y, iha hx, ihb hy, hy0, (Rat.cast_div x y).symm⟩
  | pow a b iha ihb =>
    simp only [exactValue?, Option.bind_eq_bind, Option.bind_eq_some_iff] at h
    obtain ⟨x, hx, y, hy, h⟩ := h
    obtain ⟨defined, value⟩ := exactPower?_spec h
    exact denotes_pow.mpr ⟨x, y, iha hx, ihb hy, defined, value⟩
  | neg a ih =>
    simp only [exactValue?, Option.bind_eq_bind, Option.bind_eq_some_iff,
      Option.pure_def, Option.some.injEq] at h
    obtain ⟨x, hx, rfl⟩ := h
    exact denotes_neg.mpr ⟨x, ih hx, (Rat.cast_neg x).symm⟩
  | sin a ih =>
    simp only [exactValue?, Option.bind_eq_bind, Option.bind_eq_some_iff,
      Option.ite_none_right_eq_some, Option.some.injEq] at h
    obtain ⟨x, hx, rfl, rfl⟩ := h
    exact denotes_sin.mpr ⟨_, ih hx, by simp⟩
  | cos a ih =>
    simp only [exactValue?, Option.bind_eq_bind, Option.bind_eq_some_iff,
      Option.ite_none_right_eq_some, Option.some.injEq] at h
    obtain ⟨x, hx, rfl, rfl⟩ := h
    exact denotes_cos.mpr ⟨_, ih hx, by simp⟩
  | tan a ih =>
    simp only [exactValue?, Option.bind_eq_bind, Option.bind_eq_some_iff,
      Option.ite_none_right_eq_some, Option.some.injEq] at h
    obtain ⟨x, hx, rfl, rfl⟩ := h
    exact denotes_tan.mpr ⟨_, ih hx, by simp, by simp⟩
  | exp a ih =>
    simp only [exactValue?, Option.bind_eq_bind, Option.bind_eq_some_iff,
      Option.ite_none_right_eq_some, Option.some.injEq] at h
    obtain ⟨x, hx, rfl, rfl⟩ := h
    exact denotes_exp.mpr ⟨_, ih hx, by simp⟩
  | log a ih =>
    simp only [exactValue?, Option.bind_eq_bind, Option.bind_eq_some_iff,
      Option.ite_none_right_eq_some, Option.some.injEq] at h
    obtain ⟨x, hx, rfl, rfl⟩ := h
    exact denotes_log.mpr ⟨_, ih hx, by simp, by simp⟩

/-! ### Substitution -/

private theorem evalAt_substitute (ρ : String → ℝ) (e : Expr) (v : String) (r : Expr) :
    (e.substitute v r).evalAt ρ = e.evalAt (Function.update ρ v (r.evalAt ρ)) := by
  induction e with
  | var name =>
    by_cases h : name = v
    · simp only [substitute, h, beq_self_eq_true, if_true, evalAt, Function.update_self]
    · simp only [substitute, beq_eq_false_iff_ne.mpr h, Bool.false_eq_true, if_false, evalAt,
        Function.update_of_ne h]
  | const q => rfl
  | add a b iha ihb | sub a b iha ihb | mul a b iha ihb | div a b iha ihb | pow a b iha ihb =>
    simp only [substitute, evalAt, iha, ihb]
  | neg a ih | sin a ih | cos a ih | tan a ih | exp a ih | log a ih =>
    simp only [substitute, evalAt, ih]

private theorem definedAt_substitute {r : Expr} (hr : r.DefinedAt ρ) (e : Expr) (v : String) :
    (e.substitute v r).DefinedAt ρ ↔ e.DefinedAt (Function.update ρ v (r.evalAt ρ)) := by
  induction e with
  | var name =>
    by_cases h : name = v
    · simp only [substitute, h, beq_self_eq_true, if_true, DefinedAt, hr]
    · simp only [substitute, beq_eq_false_iff_ne.mpr h, Bool.false_eq_true, if_false, DefinedAt]
  | const q => exact Iff.rfl
  | add a b iha ihb | sub a b iha ihb | mul a b iha ihb | div a b iha ihb | pow a b iha ihb =>
    simp only [substitute, DefinedAt, iha, ihb, evalAt_substitute]
  | neg a ih | sin a ih | cos a ih | tan a ih | exp a ih | log a ih =>
    simp only [substitute, DefinedAt, ih, evalAt_substitute]

theorem denotes_substitute_const {r : ℝ} :
    Denotes ρ (e.substitute v (.const q)) r ↔ Denotes (Function.update ρ v q) e r := by
  have defined := definedAt_substitute (ρ := ρ) (r := .const q) trivial e v
  have value := evalAt_substitute ρ e v (.const q)
  constructor
  · rintro ⟨he, rfl⟩
    exact ⟨defined.mp he, value.symm⟩
  · rintro ⟨he, rfl⟩
    exact ⟨defined.mpr he, value⟩

end Tutor.Expr
