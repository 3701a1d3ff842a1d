import Tutor.Proofs.Simplify.Pass
import Tutor.Proofs.Value.Exact

/-!
Constants are worked out: a pass turns every expression that has an exact value into this value. Exact
evaluation and simplification have rules of their own for each node, so the induction compares them node
by node; they differ most in powers, where simplification looks at the exponents zero and one first and
takes exponents of one bit more.
-/

set_option autoImplicit false
set_option relaxedAutoImplicit false

namespace Tutor

namespace Simplify

open Tutor.Expr (exactPower? powerBase?)

variable {b c p q x : Rat} {k : Int}

theorem add_const (p q : Rat) : add (.const p) (.const q) = .const (p + q) := by
  have coefficient (c : Rat) : splitCoeff (.const c) = (c, .one) := rfl
  have key : sortExprs (factors .one) = [] := rfl
  by_cases hp : p = 0 <;> by_cases hq : q = 0 <;> by_cases h0 : p + q = 0 <;>
    simp_all [add, terms, collect, Tally.ofList, Tally.book, ofTally, sum, Expr.joinLeft?, Expr.zero]

private theorem sub_const (p q : Rat) : sub (.const p) (.const q) = .const (p - q) := by
  rw [sub_eq_add_neg]
  exact add_const p (-q)

private theorem exists_integerPower? (hk : k.natAbs < UInt32.size) (h0 : p ≠ 0 ∨ 0 ≤ k) :
    ∃ c, integerPower? p k = some c := by
  rw [integerPower?, if_neg (by omega)]
  by_cases nonneg : 0 ≤ k
  · exact ⟨_, if_pos nonneg⟩
  · rw [if_neg nonneg, if_neg (h0.resolve_right nonneg)]
    exact ⟨_, rfl⟩

theorem exists_raise_const (hk : k.natAbs < UInt32.size) (h0 : p ≠ 0 ∨ 0 ≤ k) :
    ∃ c, raise (.const p) k = .const c := by
  obtain ⟨c, hc⟩ := exists_integerPower? hk h0
  rw [raise.eq_def]
  by_cases zero : (k : Rat) = 0
  · exact ⟨1, if_pos zero⟩
  · by_cases one : (k : Rat) = 1
    · exact ⟨p, by rw [if_neg zero, if_pos one]⟩
    · refine ⟨c, ?_⟩
      rw [if_neg zero, if_neg one]
      simp only [constPow, Rat.den_intCast, if_true, Rat.num_intCast, hc]

private theorem exists_root_of_exactPower? (h : exactPower? b x = some c) :
    ∃ root, powerBase? b x.den = some root ∧ integerPower? root x.num = some c := by
  rw [exactPower?, Option.bind_eq_bind, Option.bind_eq_some_iff] at h
  obtain ⟨root, hroot, h⟩ := h
  refine ⟨root, hroot, ?_⟩
  have size : 0x80000000 ≤ UInt32.size := by decide
  rw [integerPower?]
  split_ifs at h with large nonneg zero
  · rw [if_neg (by omega), if_pos nonneg, h]
  · rw [if_neg (by omega), if_neg nonneg, if_neg zero, ← inv_pow, h]

private theorem constPow_of_root {root : Rat} (hroot : powerBase? b x.den = some root)
    (power : integerPower? root x.num = some c) : constPow b x = .const c := by
  unfold powerBase? at hroot
  split_ifs at hroot with whole half
  · obtain rfl := Option.some.inj hroot
    simp only [constPow, if_pos whole, power]
  · simp only [constPow, if_neg whole, if_pos half, hroot, power]

/-- Raising a constant gives the exact power. The exponents zero and one, which it looks at first, are
whole, so the base is its own root there. -/
private theorem raise_of_exactPower? (h : exactPower? b x = some c) : raise (.const b) x = .const c := by
  obtain ⟨root, hroot, power⟩ := exists_root_of_exactPower? h
  rw [raise.eq_def]
  by_cases zero : x = 0
  · subst zero
    obtain rfl : 1 = c := by simpa [integerPower?, UInt32.size] using power
    exact if_pos rfl
  · by_cases one : x = 1
    · subst one
      obtain rfl : b = root := by simpa [powerBase?] using hroot
      obtain rfl : b = c := by simpa [integerPower?, UInt32.size] using power
      rw [if_neg zero, if_pos rfl]
    · rw [if_neg zero, if_neg one]
      exact constPow_of_root hroot power

end Simplify

namespace Expr

open Simplify (add_const sub_const raise_of_exactPower?)

variable {e : Expr} {c : Rat}

private theorem simplify_of_exactValue? (h : e.exactValue? = some c) : e.simplify = .const c := by
  induction e generalizing c with
  | var name => cases h
  | const q => rw [← Option.some.inj h]; rfl
  | add a b iha ihb =>
    simp only [exactValue?, Option.bind_eq_bind, Option.bind_eq_some_iff, Option.pure_def,
      Option.some.injEq] at h
    obtain ⟨p, hp, q, hq, rfl⟩ := h
    rw [simplify, iha hp, ihb hq]
    exact add_const p q
  | sub a b iha ihb =>
    simp only [exactValue?, Option.bind_eq_bind, Option.bind_eq_some_iff, Option.pure_def,
      Option.some.injEq] at h
    obtain ⟨p, hp, q, hq, rfl⟩ := h
    rw [simplify, iha hp, ihb hq]
    exact sub_const p q
  | mul a b iha ihb =>
    simp only [exactValue?, Option.bind_eq_bind, Option.bind_eq_some_iff, Option.pure_def,
      Option.some.injEq] at h
    obtain ⟨p, hp, q, hq, rfl⟩ := h
    rw [simplify, iha hp, ihb hq]
    rfl
  | div a b iha ihb =>
    simp only [exactValue?, exactQuotient?, Option.bind_eq_bind, Option.bind_eq_some_iff,
      Option.ite_none_left_eq_some, Option.some.injEq] at h
    obtain ⟨p, hp, q, hq, h0, rfl⟩ := h
    rw [simplify, iha hp, ihb hq]
    exact if_neg h0
  | pow a b iha ihb =>
    simp only [exactValue?, Option.bind_eq_bind, Option.bind_eq_some_iff] at h
    obtain ⟨p, hp, q, hq, h⟩ := h
    rw [simplify, iha hp, ihb hq]
    exact raise_of_exactPower? h
  | neg a ih =>
    simp only [exactValue?, Option.bind_eq_bind, Option.bind_eq_some_iff, Option.pure_def,
      Option.some.injEq] at h
    obtain ⟨p, hp, rfl⟩ := h
    rw [simplify, ih hp]
    rfl
  | sin a ih | cos a ih | tan a ih | exp a ih | log a ih =>
    simp only [exactValue?, Option.bind_eq_bind, Option.bind_eq_some_iff,
      Option.ite_none_right_eq_some, Option.some.injEq] at h
    obtain ⟨p, hp, rfl, rfl⟩ := h
    rw [simplify, ih hp]
    rfl

/-- Simplification works out whatever exact evaluation can, to the same value, and this is the true value:
an expression with an exact value becomes the constant, and under every assignment of reals it is defined
and has this value. -/
theorem exactValue?_folded (h : e.exactValue? = some c) :
    e.simplify = .const c ∧ ∀ ρ : String → ℝ, Denotes ρ e c :=
  ⟨simplify_of_exactValue? h, denotes_of_exactValue? h⟩

/-- A root in lowest terms, `0 ^ 0`, functions at their special points and a negative power of a negative
base: `(9 / 4) ^ (-3 / 2) * 0 ^ 0 - cos(log(exp(0))) / (-2) ^ (-3)` is 224 / 27. -/
theorem exactValue?_folded_powers :
    let e : Expr := .sub (.mul (.pow (.const (9 / 4)) (.const (-3 / 2))) (.pow .zero .zero))
      (.div (.cos (.log (.exp .zero))) (.pow (.const (-2)) (.neg (.const 3))))
    e.exactValue? = some (224 / 27) ∧ e.simplify = .const (224 / 27) ∧
      ∀ ρ : String → ℝ, Denotes ρ e ((224 / 27 : Rat) : ℝ) := by
  intro e
  have exact : e.exactValue? = some (224 / 27) := by decide +kernel
  exact ⟨exact, exactValue?_folded exact⟩

end Expr

end Tutor
