import Tutor.Proofs.Poly.Overflow
import Tutor.Proofs.RationalFunction

/-!
The polynomial of an expression. Parts without the variable and divisors are constants, and every other
node combines the polynomials of its parts; so the polynomial has the value of the expression wherever the
expression denotes a number, as long as no sum of powers wraps around.
-/

set_option autoImplicit false
set_option relaxedAutoImplicit false

namespace Tutor.Poly

open Tutor.Expr (Denotes)

variable {e : Expr} {p : Poly} {v : String}

/-- How an expression gets its polynomial: one rule for parts without the variable, and one for every node
that can stand above the variable. A divisor has to be simplified to a constant. -/
inductive OfExpr (v : String) : Expr → Poly → Prop
  | constant {e : Expr} {c : Rat} (free : e.mentions v = false) (hc : e.constantValue? = some c) :
      OfExpr v e (const c)
  | var : OfExpr v (.var v) x
  | add {a b : Expr} {p q : Poly} (hv : ¬(Expr.add a b).mentions v = false) (ha : OfExpr v a p)
      (hb : OfExpr v b q) : OfExpr v (.add a b) (p + q)
  | sub {a b : Expr} {p q : Poly} (hv : ¬(Expr.sub a b).mentions v = false) (ha : OfExpr v a p)
      (hb : OfExpr v b q) : OfExpr v (.sub a b) (p - q)
  | mul {a b : Expr} {p q : Poly} (hv : ¬(Expr.mul a b).mentions v = false) (ha : OfExpr v a p)
      (hb : OfExpr v b q) : OfExpr v (.mul a b) (p * q)
  | div {a b : Expr} {p : Poly} {c : Rat} (hv : ¬(Expr.div a b).mentions v = false) (ha : OfExpr v a p)
      (hc : b.constantValue? = some c) (h0 : c ≠ 0) : OfExpr v (.div a b) (p.scale (1 / c))
  | neg {a : Expr} {p : Poly} (hv : ¬(Expr.neg a).mentions v = false) (ha : OfExpr v a p) :
      OfExpr v (.neg a) (-p)
  | pow {a b : Expr} {p : Poly} {k : Int} {m : Nat} (hv : ¬(Expr.pow a b).mentions v = false)
      (ha : OfExpr v a p) (hk : b.signedInteger? = some k) (nonneg : 0 ≤ k)
      (hm : Expr.exponentSize? k = some m) : OfExpr v (.pow a b) (p.power m)

private theorem ofExpr_cases (h : ofExpr? v e = some p) (rule : ¬e.mentions v = false → OfExpr v e p) :
    OfExpr v e p := by
  by_cases hv : e.mentions v = false
  · rw [ofExpr?.eq_def, if_pos hv, Option.map_eq_some_iff] at h
    obtain ⟨c, hc, rfl⟩ := h
    exact .constant hv hc
  · exact rule hv

theorem ofExpr_of_eq_some (h : ofExpr? v e = some p) : OfExpr v e p := by
  induction e generalizing p with
  | var name =>
    refine ofExpr_cases h fun hv => ?_
    obtain rfl : name = v := by simpa [Expr.mentions] using hv
    rw [ofExpr?, if_neg hv] at h
    obtain rfl := Option.some.inj h
    exact .var
  | const q => exact ofExpr_cases h fun hv => absurd rfl hv
  | add a b iha ihb =>
    refine ofExpr_cases h fun hv => ?_
    rw [ofExpr?, if_neg hv] at h
    simp only [Option.bind_eq_bind, Option.bind_eq_some_iff, Option.pure_def, Option.some.injEq] at h
    obtain ⟨pa, ha, pb, hb, rfl⟩ := h
    exact .add hv (iha ha) (ihb hb)
  | sub a b iha ihb =>
    refine ofExpr_cases h fun hv => ?_
    rw [ofExpr?, if_neg hv] at h
    simp only [Option.bind_eq_bind, Option.bind_eq_some_iff, Option.pure_def, Option.some.injEq] at h
    obtain ⟨pa, ha, pb, hb, rfl⟩ := h
    exact .sub hv (iha ha) (ihb hb)
  | mul a b iha ihb =>
    refine ofExpr_cases h fun hv => ?_
    rw [ofExpr?, if_neg hv] at h
    simp only [Option.bind_eq_bind, Option.bind_eq_some_iff, Option.pure_def, Option.some.injEq] at h
    obtain ⟨pa, ha, pb, hb, rfl⟩ := h
    exact .mul hv (iha ha) (ihb hb)
  | div a b iha _ =>
    refine ofExpr_cases h fun hv => ?_
    rw [ofExpr?, if_neg hv] at h
    simp only [Option.bind_eq_bind, Option.bind_eq_some_iff, Option.pure_def,
      Option.ite_none_left_eq_some, Option.some.injEq] at h
    obtain ⟨c, hc, h0, pa, ha, rfl⟩ := h
    exact .div hv (iha ha) hc h0
  | pow a b iha _ =>
    refine ofExpr_cases h fun hv => ?_
    rw [ofExpr?, if_neg hv] at h
    simp only [Option.bind_eq_bind, Option.bind_eq_some_iff, Option.pure_def,
      Option.ite_none_left_eq_some, Option.some.injEq] at h
    obtain ⟨k, hk, nonneg, pa, ha, m, hm, rfl⟩ := h
    exact .pow hv (iha ha) hk (not_lt.mp nonneg) hm
  | neg a ih =>
    refine ofExpr_cases h fun hv => ?_
    rw [ofExpr?, if_neg hv] at h
    simp only [Option.bind_eq_bind, Option.bind_eq_some_iff, Option.pure_def, Option.some.injEq] at h
    obtain ⟨pa, ha, rfl⟩ := h
    exact .neg hv (ih ha)
  | sin a | cos a | tan a | exp a | log a =>
    refine ofExpr_cases h fun hv => ?_
    simp only [ofExpr?.eq_def, if_neg hv] at h
    cases h

theorem OfExpr.eq_some (h : OfExpr v e p) : ofExpr? v e = some p := by
  induction h with
  | constant free hc => rw [ofExpr?.eq_def, if_pos free, hc, Option.map_some]
  | var => rw [ofExpr?, if_neg (by simp [Expr.mentions])]
  | add hv _ _ iha ihb | sub hv _ _ iha ihb | mul hv _ _ iha ihb =>
    rw [ofExpr?, if_neg hv, iha, ihb]
    rfl
  | div hv _ hc h0 iha =>
    rw [ofExpr?, if_neg hv, hc, iha]
    exact if_neg h0
  | neg hv _ ih =>
    rw [ofExpr?, if_neg hv, ih]
    rfl
  | pow hv _ hk nonneg hm ih =>
    simp only [ofExpr?, if_neg hv, hk, ih, hm, Option.bind_eq_bind, Option.bind_some,
      if_neg (not_lt.mpr nonneg), Option.pure_def]

private theorem eq_of_exponentSize? {k : Int} {m : Nat} (nonneg : 0 ≤ k) (hm : Expr.exponentSize? k = some m) :
    k = m := by
  rw [Expr.exponentSize?, Option.ite_none_right_eq_some, Option.some.injEq] at hm
  omega

/-- Wherever an expression denotes a number, its polynomial has this value, if no sum of powers wraps
around. -/
theorem OfExpr.aeval_eq {ρ : String → ℝ} {y : ℝ} (h : OfExpr v e p) (fits : ofExprFits v e = true)
    (he : Denotes ρ e y) : Polynomial.aeval (ρ v) p.toPolynomial = y := by
  induction h generalizing y with
  | constant _ hc => rw [aeval_toPolynomial, valueAt_const, Expr.eq_of_constantValue? hc he]
  | var =>
    rw [aeval_toPolynomial, valueAt_x]
    exact he.value
  | add hv ha _ iha ihb =>
    rw [ofExprFits, if_neg hv, ha.eq_some, Option.all_some, Bool.and_eq_true] at fits
    obtain ⟨s, t, hs, ht, rfl⟩ := Expr.denotes_add.mp he
    rw [toPolynomial_add, map_add, iha fits.1 hs, ihb fits.2 ht]
  | sub hv ha _ iha ihb =>
    rw [ofExprFits, if_neg hv, ha.eq_some, Option.all_some, Bool.and_eq_true] at fits
    obtain ⟨s, t, hs, ht, rfl⟩ := Expr.denotes_sub.mp he
    rw [toPolynomial_sub, map_sub, iha fits.1 hs, ihb fits.2 ht]
  | mul hv ha hb iha ihb =>
    rw [ofExprFits, if_neg hv, ha.eq_some, hb.eq_some] at fits
    simp only [Option.all_some, Bool.and_eq_true] at fits
    obtain ⟨s, t, hs, ht, rfl⟩ := Expr.denotes_mul.mp he
    rw [toPolynomial_mul_of_fits fits.2.2, map_mul, iha fits.1 hs, ihb fits.2.1 ht]
  | div hv _ hc h0 iha =>
    rw [ofExprFits, if_neg hv, hc, Option.all_some, Bool.or_eq_true, decide_eq_true_eq,
      or_iff_right h0] at fits
    obtain ⟨s, t, hs, ht, -, rfl⟩ := Expr.denotes_div.mp he
    rw [toPolynomial_scale, map_mul, iha fits hs, Polynomial.aeval_C, eq_ratCast, Rat.cast_div,
      Rat.cast_one, Expr.eq_of_constantValue? hc ht, mul_one_div]
  | neg hv _ ih =>
    rw [ofExprFits, if_neg hv] at fits
    obtain ⟨s, hs, rfl⟩ := Expr.denotes_neg.mp he
    rw [toPolynomial_neg, map_neg, ih fits hs]
  | @pow a b p k m hv ha hk nonneg hm ih =>
    rw [ofExprFits, if_neg hv, hk, ha.eq_some] at fits
    simp only [hm, Option.all_some, Bool.or_eq_true, decide_eq_true_eq,
      or_iff_right (not_lt.mpr nonneg), Bool.and_eq_true] at fits
    obtain ⟨s, t, hs, ht, -, rfl⟩ := Expr.denotes_pow.mp he
    have exponent : t = (k : ℝ) := ht.value.symm.trans (Expr.denotes_signedInteger? hk).value
    rw [toPolynomial_power_of_fits fits.2, map_pow, ih fits.1 hs, exponent, Real.rpow_intCast,
      eq_of_exponentSize? nonneg hm, zpow_natCast]

end Tutor.Poly
