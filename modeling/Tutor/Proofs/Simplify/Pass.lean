import Tutor.Proofs.Simplify.Iteration
import Tutor.Proofs.Simplify.Sum

/-!
Simplification preserves meaning: whatever an expression denotes under an assignment of reals, its
simplified forms denote, and so do the entry points for single nodes.
-/

set_option autoImplicit false
set_option relaxedAutoImplicit false

namespace Tutor

namespace Simplify

open Tutor.Expr (Denotes evalAt)

variable {ρ : String → ℝ} {a e : Expr} {x r : ℝ}

theorem denotes_sin (ha : Denotes ρ a x) : Denotes ρ (node (.sin a)) (Real.sin x) := by
  simp only [node, Expr.isZero_iff]
  split_ifs with h0
  · rw [← ha.value, h0, evalAt, Rat.cast_zero, Real.sin_zero]
    exact Expr.denotes_zero
  · split
    · obtain ⟨y, hy, rfl⟩ := Expr.denotes_neg.mp ha
      rw [Real.sin_neg]
      exact denotes_neg (Expr.denotes_sin.mpr ⟨y, hy, rfl⟩)
    · exact Expr.denotes_sin.mpr ⟨x, ha, rfl⟩

theorem denotes_cos (ha : Denotes ρ a x) : Denotes ρ (node (.cos a)) (Real.cos x) := by
  simp only [node, Expr.isZero_iff]
  split_ifs with h0
  · rw [← ha.value, h0, evalAt, Rat.cast_zero, Real.cos_zero]
    exact Expr.denotes_one
  · split
    · obtain ⟨y, hy, rfl⟩ := Expr.denotes_neg.mp ha
      rw [Real.cos_neg]
      exact Expr.denotes_cos.mpr ⟨y, hy, rfl⟩
    · exact Expr.denotes_cos.mpr ⟨x, ha, rfl⟩

theorem denotes_tan (ha : Denotes ρ a x) (hx : Real.cos x ≠ 0) :
    Denotes ρ (node (.tan a)) (Real.tan x) := by
  simp only [node, Expr.isZero_iff]
  split_ifs with h0
  · rw [← ha.value, h0, evalAt, Rat.cast_zero, Real.tan_zero]
    exact Expr.denotes_zero
  · split
    · obtain ⟨y, hy, rfl⟩ := Expr.denotes_neg.mp ha
      rw [Real.cos_neg] at hx
      rw [Real.tan_neg]
      exact denotes_neg (Expr.denotes_tan.mpr ⟨y, hy, hx, rfl⟩)
    · exact Expr.denotes_tan.mpr ⟨x, ha, hx, rfl⟩

theorem denotes_exp (ha : Denotes ρ a x) : Denotes ρ (node (.exp a)) (Real.exp x) := by
  simp only [node, Expr.isZero_iff]
  split_ifs with h0
  · rw [← ha.value, h0, evalAt, Rat.cast_zero, Real.exp_zero]
    exact Expr.denotes_one
  · split
    · obtain ⟨y, hy, hpos, rfl⟩ := Expr.denotes_log.mp ha
      rwa [Real.exp_log hpos]
    · exact Expr.denotes_exp.mpr ⟨x, ha, rfl⟩

theorem denotes_log (ha : Denotes ρ a x) (hx : 0 < x) :
    Denotes ρ (node (.log a)) (Real.log x) := by
  simp only [node, Expr.isOne_iff]
  split_ifs with h1
  · rw [← ha.value, h1, evalAt, Rat.cast_one, Real.log_one]
    exact Expr.denotes_zero
  · split
    · obtain ⟨y, hy, rfl⟩ := Expr.denotes_exp.mp ha
      rwa [Real.log_exp]
    · exact Expr.denotes_log.mpr ⟨x, ha, hx, rfl⟩

private theorem denotes_node (h : Denotes ρ e r) : Denotes ρ (node e) r := by
  cases e with
  | var v => exact h
  | const q => exact h
  | add a b =>
    obtain ⟨x, y, ha, hb, rfl⟩ := Expr.denotes_add.mp h
    exact denotes_add ha hb
  | sub a b =>
    obtain ⟨x, y, ha, hb, rfl⟩ := Expr.denotes_sub.mp h
    exact denotes_sub ha hb
  | mul a b =>
    obtain ⟨x, y, ha, hb, rfl⟩ := Expr.denotes_mul.mp h
    exact denotes_mul ha hb
  | div a b =>
    obtain ⟨x, y, ha, hb, h0, rfl⟩ := Expr.denotes_div.mp h
    exact denotes_div ha hb h0
  | pow a b =>
    obtain ⟨x, y, ha, hb, hp, rfl⟩ := Expr.denotes_pow.mp h
    exact denotes_pow ha hb hp
  | neg a =>
    obtain ⟨x, ha, rfl⟩ := Expr.denotes_neg.mp h
    exact denotes_neg ha
  | sin a =>
    obtain ⟨x, ha, rfl⟩ := Expr.denotes_sin.mp h
    exact denotes_sin ha
  | cos a =>
    obtain ⟨x, ha, rfl⟩ := Expr.denotes_cos.mp h
    exact denotes_cos ha
  | tan a =>
    obtain ⟨x, ha, hx, rfl⟩ := Expr.denotes_tan.mp h
    exact denotes_tan ha hx
  | exp a =>
    obtain ⟨x, ha, rfl⟩ := Expr.denotes_exp.mp h
    exact denotes_exp ha
  | log a =>
    obtain ⟨x, ha, hx, rfl⟩ := Expr.denotes_log.mp h
    exact denotes_log ha hx

end Simplify

namespace Expr

open Simplify (node denotes_node)

variable {ρ : String → ℝ} {e : Expr} {r : ℝ}

/-- One pass keeps what an expression denotes. -/
theorem denotes_simplify (h : Denotes ρ e r) : Denotes ρ e.simplify r := by
  induction e generalizing r with
  | var v => exact h
  | const q => exact h
  | add a b iha ihb =>
    obtain ⟨x, y, ha, hb, rfl⟩ := denotes_add.mp h
    exact denotes_node (denotes_add.mpr ⟨x, y, iha ha, ihb hb, rfl⟩)
  | sub a b iha ihb =>
    obtain ⟨x, y, ha, hb, rfl⟩ := denotes_sub.mp h
    exact denotes_node (denotes_sub.mpr ⟨x, y, iha ha, ihb hb, rfl⟩)
  | mul a b iha ihb =>
    obtain ⟨x, y, ha, hb, rfl⟩ := denotes_mul.mp h
    exact denotes_node (denotes_mul.mpr ⟨x, y, iha ha, ihb hb, rfl⟩)
  | div a b iha ihb =>
    obtain ⟨x, y, ha, hb, h0, rfl⟩ := denotes_div.mp h
    exact denotes_node (denotes_div.mpr ⟨x, y, iha ha, ihb hb, h0, rfl⟩)
  | pow a b iha ihb =>
    obtain ⟨x, y, ha, hb, hp, rfl⟩ := denotes_pow.mp h
    exact denotes_node (denotes_pow.mpr ⟨x, y, iha ha, ihb hb, hp, rfl⟩)
  | neg a ih =>
    obtain ⟨x, ha, rfl⟩ := denotes_neg.mp h
    exact denotes_node (denotes_neg.mpr ⟨x, ih ha, rfl⟩)
  | sin a ih =>
    obtain ⟨x, ha, rfl⟩ := denotes_sin.mp h
    exact denotes_node (denotes_sin.mpr ⟨x, ih ha, rfl⟩)
  | cos a ih =>
    obtain ⟨x, ha, rfl⟩ := denotes_cos.mp h
    exact denotes_node (denotes_cos.mpr ⟨x, ih ha, rfl⟩)
  | tan a ih =>
    obtain ⟨x, ha, hx, rfl⟩ := denotes_tan.mp h
    exact denotes_node (denotes_tan.mpr ⟨x, ih ha, hx, rfl⟩)
  | exp a ih =>
    obtain ⟨x, ha, rfl⟩ := denotes_exp.mp h
    exact denotes_node (denotes_exp.mpr ⟨x, ih ha, rfl⟩)
  | log a ih =>
    obtain ⟨x, ha, hx, rfl⟩ := denotes_log.mp h
    exact denotes_node (denotes_log.mpr ⟨x, ih ha, hx, rfl⟩)

theorem denotes_simplifyWithLimit (h : Denotes ρ e r) (limit : Nat) :
    Denotes ρ (e.simplifyWithLimit limit) r :=
  simplifyWithLimit_keeps (P := (Denotes ρ · r)) (fun _ => denotes_simplify) h limit

/-- Simplification preserves meaning. Whatever an expression denotes under an assignment of reals, one
pass, any number of passes and a full simplification denote; and each entry point for a single node
denotes whatever the plain node denotes, for all operands. -/
theorem simplification_denotes (ρ : String → ℝ) :
    (∀ (e : Expr) (r : ℝ), Denotes ρ e r →
      Denotes ρ e.simplify r ∧ (∀ n, Denotes ρ (e.simplifyWithLimit n) r) ∧
        Denotes ρ e.simplifyFully r) ∧
    (∀ (x y : Expr) (r : ℝ),
      (Denotes ρ (.add x y) r → Denotes ρ (Simplify.add x y) r) ∧
      (Denotes ρ (.sub x y) r → Denotes ρ (Simplify.sub x y) r) ∧
      (Denotes ρ (.mul x y) r → Denotes ρ (Simplify.mul x y) r) ∧
      (Denotes ρ (.div x y) r → Denotes ρ (Simplify.div x y) r) ∧
      (Denotes ρ (.pow x y) r → Denotes ρ (Simplify.pow x y) r)) ∧
    (∀ (x : Expr) (r : ℝ), Denotes ρ (.neg x) r → Denotes ρ (Simplify.neg x) r) := by
  refine ⟨?_, ?_, ?_⟩
  · intro e r h
    exact ⟨denotes_simplify h, denotes_simplifyWithLimit h, denotes_simplifyWithLimit h fullPasses⟩
  · intro x y r
    exact ⟨denotes_node, denotes_node, denotes_node, denotes_node, denotes_node⟩
  · intro x r
    exact denotes_node

/-- Powers of a negative base: `(x ^ 3) ^ 2 - x * x ^ (-1)` is 63 at `x = -2`, and stays so. -/
theorem simplification_denotes_negative_base :
    let e : Expr := .sub (.pow (.pow (.var "x") (.const 3)) (.const 2))
      (.mul (.var "x") (.pow (.var "x") (.const (-1))))
    Denotes (fun _ => -2) e 63 ∧ Denotes (fun _ => -2) e.simplify 63 ∧
      Denotes (fun _ => -2) e.simplifyFully 63 := by
  intro e
  have hx : Denotes (fun _ => -2) (.var "x") (-2) := ⟨trivial, rfl⟩
  have cube : Denotes (fun _ => -2) (.pow (.var "x") (.const 3)) (-8) :=
    denotes_pow_const.mpr ⟨-2, hx, by simpa using PowerDefined.int_of_ne_zero (a := -2) (by simp) 3,
      by norm_num⟩
  have sixth : Denotes (fun _ => -2) (.pow (.pow (.var "x") (.const 3)) (.const 2)) 64 :=
    denotes_pow_const.mpr ⟨-8, cube, by simpa using PowerDefined.int_of_ne_zero (a := -8) (by simp) 2,
      by norm_num⟩
  have inverse : Denotes (fun _ => -2) (.pow (.var "x") (.const (-1))) (-1 / 2) :=
    denotes_pow_const.mpr ⟨-2, hx, by simpa using PowerDefined.int_of_ne_zero (a := -2) (by simp) (-1),
      by rw [Rat.cast_neg, Rat.cast_one, Real.rpow_neg_one]; norm_num⟩
  have h : Denotes (fun _ => -2) e 63 :=
    denotes_sub.mpr ⟨64, 1, sixth, denotes_mul.mpr ⟨-2, -1 / 2, hx, inverse, by norm_num⟩, by norm_num⟩
  obtain ⟨once, -, fully⟩ := (simplification_denotes _).1 e 63 h
  exact ⟨h, once, fully⟩

end Expr

end Tutor
