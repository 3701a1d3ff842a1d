import Tutor.Proofs.RationalFunction
import Tutor.Proofs.Roots.Real
import Tutor.Proofs.Value.Exact

/-!
The solutions of an equation `e = 0`: every reported number is a zero of the reduced numerator and no
zero of the reduced denominator, so `e` is zero there wherever it is defined, as long as no sum of powers
wraps around. It need not be defined: a factor that cancels leaves a root at which a divisor of `e` vanishes.
Within the rational expressions the reported rationals with exact value zero are exactly those at which `e`
is defined.
-/

set_option autoImplicit false
set_option relaxedAutoImplicit false

namespace Tutor

/-- The roots that the square-free parts of a polynomial have, before they are put into order. -/
def Poly.partRoots? (p : Poly) : Option (List Expr) :=
  (show Except Failure (List RealRoot) from
    p.squareFree.flatMapM fun (part, _) => part.distinctRoots).toOption.map (List.map RealRoot.expr)

namespace Expr

variable {e x : Expr} {es : List Expr} {v : String} {ρ : String → ℝ} {r : Rat}

/-- Expressions in one variable with rational constants, the four operations, signs, and powers with
constant integer exponents of at most 31 bits. -/
def IsRational (v : String) : Expr → Prop
  | .var name => name = v
  | .const _ => True
  | .add a b | .sub a b | .mul a b | .div a b => a.IsRational v ∧ b.IsRational v
  | .neg a => a.IsRational v
  | .pow a b => a.IsRational v ∧ ∃ k : Int, b.signedInteger? = some k ∧ k.natAbs < 0x80000000
  | _ => False

private theorem exactValue?_of_signedConst? {b : Expr} {q : Rat} (h : b.signedConst? = some q) (w : String)
    (s : Expr) : (b.substitute w s).exactValue? = some q := by
  refine signedConst?_induction (P := fun b q => (b.substitute w s).exactValue? = some q)
    (fun _ => rfl) ?_ h
  intro a c ha
  rw [substitute, exactValue?, ha]
  rfl

private theorem exists_exactPower? {b q : Rat} (hq : q.den = 1) (small : q.num.natAbs < 0x80000000)
    (h : PowerDefined b q) : ∃ c, exactPower? b q = some c := by
  have nonzero (negative : ¬0 ≤ q.num) : b ≠ 0 := by
    rintro rfl
    rw [Rat.cast_zero] at h
    have hq : (0 : ℚ) ≤ q := by exact_mod_cast h.exponent_nonneg
    exact negative (Rat.num_nonneg.mpr hq)
  simp only [exactPower?, powerBase?, if_pos hq, Option.bind_eq_bind, Option.bind_some,
    if_neg (not_le.mpr small)]
  by_cases negative : 0 ≤ q.num
  · exact ⟨_, if_pos negative⟩
  · exact ⟨_, by rw [if_neg negative, if_neg (nonzero negative)]⟩

private theorem exists_exactValue? (he : e.IsRational v)
    (h : e.DefinedAt (Function.update ρ v (r : ℝ))) :
    ∃ c, (e.substitute v (.const r)).exactValue? = some c := by
  induction e with
  | var name =>
    obtain rfl : name = v := he
    exact ⟨r, by simp [substitute, exactValue?]⟩
  | const c => exact ⟨c, rfl⟩
  | add a b iha ihb | sub a b iha ihb | mul a b iha ihb =>
    obtain ⟨p, hp⟩ := iha he.1 h.1
    obtain ⟨q, hq⟩ := ihb he.2 h.2
    exact ⟨_, by rw [substitute, exactValue?, hp, hq]; rfl⟩
  | div a b iha ihb =>
    obtain ⟨p, hp⟩ := iha he.1 h.1
    obtain ⟨q, hq⟩ := ihb he.2 h.2.1
    have value := (denotes_substitute_const.mp (denotes_of_exactValue? hq ρ)).value
    have hq0 : q ≠ 0 := by
      rintro rfl
      exact h.2.2 (by rw [value, Rat.cast_zero])
    exact ⟨p / q, by simp [substitute, exactValue?, hp, hq, exactQuotient?, hq0]⟩
  | neg a ih =>
    obtain ⟨p, hp⟩ := ih he h
    exact ⟨_, by rw [substitute, exactValue?, hp]; rfl⟩
  | pow a b iha _ =>
    obtain ⟨ha, k, hk, small⟩ := he
    obtain ⟨defined, -, power⟩ := h
    obtain ⟨p, hp⟩ := iha ha defined
    have value := (denotes_substitute_const.mp (denotes_of_exactValue? hp ρ)).value
    have exponent := (denotes_signedInteger? (ρ := Function.update ρ v (r : ℝ)) hk).value
    rw [value, exponent, ← Rat.cast_intCast] at power
    obtain ⟨c, hc⟩ := exists_exactPower? (Rat.den_intCast k) small power
    refine ⟨c, ?_⟩
    rw [substitute, exactValue?, hp, exactValue?_of_signedConst? (signedConst?_of_signedInteger? hk)]
    exact hc
  | _ => cases he

private theorem solve_spec (h : e.solve v = .ok es) (fits : RationalFunction.ofExprFits v e = true) (hx : x ∈ es) :
    ∃ f, RationalFunction.OfExpr v e f ∧ f.numer.valueAt x.number = 0 := by
  unfold solve at h
  split at h
  · cases h
  · rename_i f hf
    refine ⟨f, RationalFunction.ofExpr_of_eq_some hf fits, ?_⟩
    by_cases h0 : f.numer = 0
    · rw [h0]
      exact Poly.valueAt_zero _
    · rw [← Poly.aeval_toPolynomial]
      exact ((Poly.rootsOf_realRoots h0 h).mem_iff _).mp (List.mem_map_of_mem hx)

private theorem mem_of_solve {f : RationalFunction} {found : List Expr}
    (hf : RationalFunction.ofExpr? v e = some f) (h0 : f.numer ≠ 0)
    (hfound : f.numer.partRoots? = some found) (h : e.solve v = .ok es) (hx : x ∈ found) :
    x ∈ es := by
  rw [solve, hf] at h
  obtain ⟨roots, hroots, sorted⟩ := Poly.perm_of_realRoots h0 h
  rw [Poly.gatheredRoots] at hroots
  rw [Poly.partRoots?, hroots] at hfound
  obtain rfl := Option.some.inj hfound
  exact sorted.mem_iff.mp hx

private theorem eq_zero_of_mem_solve {t : ℝ} (h : e.solve v = .ok es)
    (fits : RationalFunction.ofExprFits v e = true) (hx : x ∈ es) (he : Denotes (Function.update ρ v x.number) e t) : t = 0 := by
  obtain ⟨f, hf, root⟩ := solve_spec h fits hx
  have value := hf.hasValue he
  rw [Function.update_self] at value
  have product := value.value
  rw [root] at product
  exact (mul_eq_zero.mp product.symm).resolve_right value.denom_ne_zero

/-- The numbers that are reported as solutions of `e = 0`, if no sum of powers wraps around: at each of them
`e` has the value zero or none, and of a rational expression the exact value at a reported rational is zero
exactly if the expression is defined there. -/
theorem solve_exact_where_defined (h : e.solve v = .ok es)
    (fits : RationalFunction.ofExprFits v e = true) :
    (∀ x ∈ es, ∀ ρ, e.DefinedAt (Function.update ρ v x.number) →
      e.evalAt (Function.update ρ v x.number) = 0) ∧
    (∀ r : Rat, .const r ∈ es → ∀ c, (e.substitute v (.const r)).exactValue? = some c → c = 0) ∧
    (e.IsRational v → ∀ r : Rat, .const r ∈ es →
      ((e.substitute v (.const r)).exactValue? = some 0 ↔ ∀ ρ, e.DefinedAt (Function.update ρ v r))) := by
  have exact_zero (r : Rat) (hr : .const r ∈ es) (c : Rat)
      (hc : (e.substitute v (.const r)).exactValue? = some c) : c = 0 := by
    have value := denotes_substitute_const.mp (denotes_of_exactValue? hc fun _ => 0)
    have zero : (c : ℝ) = 0 := eq_zero_of_mem_solve (x := .const r) h fits hr value
    exact_mod_cast zero
  refine ⟨?_, exact_zero, ?_⟩
  · intro x hx ρ he
    exact eq_zero_of_mem_solve h fits hx he.denotes
  · intro he r hr
    constructor
    · intro hc ρ
      exact (denotes_substitute_const.mp (denotes_of_exactValue? hc ρ)).defined
    · intro defined
      obtain ⟨c, hc⟩ := exists_exactValue? he (defined fun _ => 0)
      rw [hc, exact_zero r hr c hc]

/-- The equation `(x² - 4) / (x - 2) = 0` has the solution `-2`, at which it is defined. -/
theorem solve_exact_where_defined_quotient :
    let e : Expr := .div (.sub (.pow (.var "x") (.const 2)) (.const 4)) (.sub (.var "x") (.const 2))
    ∃ es, e.solve "x" = .ok es ∧ RationalFunction.ofExprFits "x" e = true ∧ .const (-2) ∈ es ∧
      e.IsRational "x" ∧
      (e.substitute "x" (.const (-2))).exactValue? = some 0 ∧
      ∀ ρ, e.DefinedAt (Function.update ρ "x" ((-2 : Rat) : ℝ)) := by
  intro e
  have answered : (e.solve "x").isOk = true := by decide +kernel
  have reduced : RationalFunction.ofExpr? "x" e = some ⟨.linear (-2), 1⟩ := by decide +kernel
  have fits : RationalFunction.ofExprFits "x" e = true := by decide +kernel
  have found : (Poly.linear (-2)).partRoots? = some [.const (-2)] := by decide +kernel
  have zero : (e.substitute "x" (.const (-2))).exactValue? = some 0 := by decide +kernel
  have rational : e.IsRational "x" := ⟨⟨⟨rfl, 2, by decide +kernel, by decide⟩, trivial⟩, rfl, trivial⟩
  cases h : e.solve "x" with
  | error failure => rw [h] at answered; cases answered
  | ok es =>
    have member := mem_of_solve reduced (by decide +kernel) found h (List.mem_singleton_self _)
    obtain ⟨-, -, defined⟩ := solve_exact_where_defined h fits
    exact ⟨es, rfl, fits, member, rational, zero, (defined rational (-2) member).mp zero⟩

/-- The equation `x² / x = 0` is reported to have the solution zero, at which it is not defined. -/
theorem solve_reports_cancelled_zero :
    let e : Expr := .div (.pow (.var "x") (.const 2)) (.var "x")
    ∃ es, e.solve "x" = .ok es ∧ .const 0 ∈ es ∧
      (e.substitute "x" (.const 0)).exactValue? = none := by
  intro e
  have answered : (e.solve "x").isOk = true := by decide +kernel
  have reduced : RationalFunction.ofExpr? "x" e = some ⟨.x, 1⟩ := by decide +kernel
  have found : Poly.x.partRoots? = some [.const 0] := by decide +kernel
  have undefined : (e.substitute "x" (.const 0)).exactValue? = none := by decide +kernel
  cases h : e.solve "x" with
  | error failure => rw [h] at answered; cases answered
  | ok es =>
    have member := mem_of_solve reduced (by decide +kernel) found h (List.mem_singleton_self _)
    exact ⟨es, rfl, member, undefined⟩

end Expr

end Tutor
