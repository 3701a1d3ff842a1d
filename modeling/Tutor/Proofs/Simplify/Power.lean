import Tutor.Proofs.Number.Square
import Tutor.Proofs.Value.Real
import Tutor.Simplify.Power

/-!
Powers with a constant exponent keep their value: `raise` of a defined base is the real power, wherever
that is defined.
-/

set_option autoImplicit false
set_option relaxedAutoImplicit false

namespace Tutor.Simplify

open Number (exactRationalSqrt? exactRationalSqrt?_spec)
open Tutor.Expr (Denotes evalAt)

variable {ρ : String → ℝ} {x : Expr} {a : ℝ}

private theorem integerPower?_value {b c : Rat} {k : Int} (h : integerPower? b k = some c) :
    (c : ℝ) = (b : ℝ) ^ (k : ℝ) := by
  rw [Real.rpow_intCast]
  simp only [integerPower?] at h
  split_ifs at h with _ hk hb
  · obtain rfl := Option.some.inj h
    rw [Rat.cast_pow, ← zpow_natCast, Int.natAbs_of_nonneg hk]
  · obtain rfl := Option.some.inj h
    have hk : k = -(k.natAbs : Int) := by omega
    rw [Rat.cast_inv, Rat.cast_pow, ← zpow_natCast, ← zpow_neg, ← hk]

theorem root_power {b e root : Rat} (he : e.den = 2) (h : exactRationalSqrt? b = some root)
    (hp : PowerDefined b e) :
    PowerDefined root e.num ∧ (root : ℝ) ^ (e.num : ℝ) = (b : ℝ) ^ (e : ℝ) := by
  obtain ⟨nonneg, square⟩ := exactRationalSqrt?_spec h
  have half : (e.num : ℝ) = 2 * e := by
    have := Rat.mul_den_eq_num e
    rw [he] at this
    exact_mod_cast (by rw [← this]; push_cast; ring : (e.num : ℚ) = 2 * e)
  have base : (b : ℝ) = (root : ℝ) ^ (2 : ℝ) := by
    rw [← square, Real.rpow_two]
    push_cast
    ring
  have nonneg : (0 : ℝ) ≤ root := by exact_mod_cast nonneg
  rw [base] at hp ⊢
  rw [half, Real.rpow_mul nonneg]
  refine ⟨?_, rfl⟩
  rcases nonneg.eq_or_lt with h0 | hpos
  · rw [← h0, Real.zero_rpow two_ne_zero] at hp
    exact .of_nonneg nonneg (by linarith [hp.exponent_nonneg])
  · exact .of_pos hpos _

theorem cast_of_den_eq_one {e : Rat} (h : e.den = 1) : (e : ℝ) = ((e.num : ℤ) : ℝ) := by
  rw [← Rat.cast_intCast, (Rat.den_eq_one_iff e).mp h]

private theorem denotes_constPow {b e : Rat} (hp : PowerDefined b e) :
    Denotes ρ (constPow b e) ((b : ℝ) ^ (e : ℝ)) := by
  have kept : Denotes ρ (.pow (.const b) (.const e)) ((b : ℝ) ^ (e : ℝ)) :=
    Expr.denotes_pow_const.mpr ⟨_, Expr.denotes_const b, hp, rfl⟩
  simp only [constPow]
  split_ifs with h1 h2
  · split
    · rename_i c hc
      rw [cast_of_den_eq_one h1, ← integerPower?_value hc]
      exact Expr.denotes_const c
    · exact kept
  · split
    · rename_i root hroot
      obtain ⟨defined, value⟩ := root_power h2 hroot hp
      rw [← value]
      split
      · rename_i c hc
        rw [← integerPower?_value hc]
        exact Expr.denotes_const c
      · exact Expr.denotes_pow_const.mpr ⟨_, Expr.denotes_const root, by simpa using defined, by simp⟩
    · exact kept
  · exact kept

theorem denotes_raise {e : Rat} (hx : Denotes ρ x a) (hp : PowerDefined a e) :
    Denotes ρ (raise x e) (a ^ (e : ℝ)) := by
  induction x, e using raise.induct generalizing a with
  | case1 x =>
    rw [raise.eq_def, if_pos rfl, Rat.cast_zero, Real.rpow_zero]
    exact Expr.denotes_one
  | case2 x h0 =>
    rw [raise.eq_def, if_neg h0, if_pos rfl, Rat.cast_one, Real.rpow_one]
    exact hx
  | case3 e h0 h1 b =>
    rw [raise.eq_def, if_neg h0, if_neg h1]
    rw [← hx.value] at hp ⊢
    exact denotes_constPow hp
  | case4 e h0 h1 base k whole ih =>
    obtain ⟨b, hb, hk, rfl⟩ := Expr.denotes_pow_const.mp hx
    rw [cast_of_den_eq_one whole] at hp
    obtain ⟨defined, value⟩ := hk.mul_int hp
    have product : ((k * e : ℚ) : ℝ) = (k : ℝ) * ((e.num : ℤ) : ℝ) := by
      rw [Rat.cast_mul, cast_of_den_eq_one whole]
    rw [raise.eq_def, if_neg h0, if_neg h1, cast_of_den_eq_one whole, ← value, ← product]
    rw [← product] at defined
    simp only [if_pos whole]
    exact ih hb defined
  | case5 e h0 h1 base k whole =>
    rw [raise.eq_def, if_neg h0, if_neg h1]
    simp only [if_neg whole]
    exact Expr.denotes_pow_const.mpr ⟨_, hx, hp, rfl⟩
  | case6 x e h0 h1 not_const not_pow =>
    rw [raise.eq_def, if_neg h0, if_neg h1]
    split
    · exact absurd rfl (not_const _)
    · exact absurd rfl (not_pow _ _)
    · exact Expr.denotes_pow_const.mpr ⟨_, hx, hp, rfl⟩

theorem denotes_pow {y : Expr} {b : ℝ} (hx : Denotes ρ x a) (hy : Denotes ρ y b)
    (hp : PowerDefined a b) : Denotes ρ (pow x y) (a ^ b) := by
  cases y with
  | const e =>
    obtain ⟨-, rfl⟩ := hy
    exact denotes_raise hx hp
  | _ => exact Expr.denotes_pow.mpr ⟨_, _, hx, hy, hp, rfl⟩

end Tutor.Simplify
