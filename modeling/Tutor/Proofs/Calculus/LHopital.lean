import Mathlib.Analysis.SpecialFunctions.Trigonometric.Sinc
import Tutor.Proofs.Calculus.Limit

/-!
Where l'Hôpital's rule is applied. The test for the form 0/0 substitutes the point into a part and
simplifies before it looks for an exact value. So a part that passes it is zero at the point if it is
defined there, and then tends to zero, but a part that is not defined at the point may pass whatever its
limit is.
-/

set_option autoImplicit false
set_option relaxedAutoImplicit false

namespace Tutor.Expr

open Filter Topology

variable {a e n d next : Expr} {v : String} {ρ : String → ℝ} {p : Rat} {r : ℝ}

private theorem lHopital?_eq_some (h : e.lHopital? v p = some next) : ∃ n d : Expr,
    (e.splitQuotient? <|> e.simplifyFully.splitQuotient?) = some (n, d) ∧
      n.simplifiedValueAt? v p = some 0 ∧ d.simplifiedValueAt? v p = some 0 ∧
      next = .div (n.derivative v) (d.derivative v) := by
  simp only [lHopital?, Option.bind_eq_bind, Option.bind_eq_some_iff, Option.ite_none_right_eq_some,
    Option.some.injEq] at h
  obtain ⟨⟨n, d⟩, split_e, ⟨hn, hd⟩, rfl⟩ := h
  exact ⟨n, d, split_e, hn, hd, rfl⟩

private theorem lHopital?_div (hn : n.simplifiedValueAt? v p = some 0) (hd : d.simplifiedValueAt? v p = some 0) :
    (Expr.div n d).lHopital? v p = some (.div (n.derivative v) (d.derivative v)) := by
  have split_e : ((Expr.div n d).splitQuotient? <|> (Expr.div n d).simplifyFully.splitQuotient?) =
      some (n, d) := rfl
  simp only [lHopital?, split_e, Option.bind_eq_bind, Option.bind_some, hn, hd, and_self, if_true]

private theorem eq_zero_of_simplifiedValueAt? (h : a.simplifiedValueAt? v p = some 0)
    (ha : Denotes (Function.update ρ v (p : ℝ)) a r) : r = 0 := by
  have simplified : Denotes ρ (a.substitute v (.const p)).simplifyFully r :=
    denotes_simplifyWithLimit (denotes_substitute_const.mpr ha) fullPasses
  rw [← simplified.value, (denotes_of_exactValue? h ρ).value, Rat.cast_zero]

private theorem tendsto_zero_of_simplifiedValueAt? (h : a.simplifiedValueAt? v p = some 0)
    (ha : a.DefinedAt (Function.update ρ v (p : ℝ)))
    (hp : a.PowersDifferentiable v (Function.update ρ v (p : ℝ))) :
    Tendsto (fun t => a.evalAt (Function.update ρ v t)) (𝓝[>] (p : ℝ)) (𝓝 0) := by
  obtain ⟨r, -, derivative⟩ := exists_derivative ha hp
  have continuous := HasDerivAt.continuousAt derivative
  simp only [Function.update_self, Function.update_idem] at continuous
  have value := continuous.tendsto
  rw [eq_zero_of_simplifiedValueAt? h ha.denotes] at value
  exact value.mono_left nhdsWithin_le_nhds

/-- L'Hôpital's rule, at any level of the search, replaces a quotient by that of the derivatives only
after both parts passed the test for zero. A part that is defined at the point is zero there; if its
powers are differentiable, it tends to zero; and if it is a rational function that is read without sums of
powers that wrap around, its reduced form has no pole at the point and is zero there. -/
theorem lHopital?_zero_over_zero (h : e.lHopital? v p = some next) : ∃ n d : Expr,
    (e.splitQuotient? <|> e.simplifyFully.splitQuotient?) = some (n, d) ∧
      next = .div (n.derivative v) (d.derivative v) ∧
      ∀ a ∈ [n, d], ∀ ρ, a.DefinedAt (Function.update ρ v (p : ℝ)) →
        a.evalAt (Function.update ρ v (p : ℝ)) = 0 ∧
        (a.PowersDifferentiable v (Function.update ρ v (p : ℝ)) →
          Tendsto (fun t => a.evalAt (Function.update ρ v t)) (𝓝[>] (p : ℝ)) (𝓝 0)) ∧
        ∀ f, RationalFunction.ofExpr? v a = some f → RationalFunction.ofExprFits v a = true →
          f.denom.eval p ≠ 0 ∧ f.numer.eval p = 0 := by
  obtain ⟨n, d, split_e, hn, hd, rfl⟩ := lHopital?_eq_some h
  refine ⟨n, d, split_e, rfl, fun a ha ρ defined => ?_⟩
  have passed : a.simplifiedValueAt? v p = some 0 := by
    rcases List.mem_pair.mp ha with rfl | rfl
    · exact hn
    · exact hd
  have zero := eq_zero_of_simplifiedValueAt? passed defined.denotes
  refine ⟨zero, tendsto_zero_of_simplifiedValueAt? passed defined, fun f hf fits => ?_⟩
  have value := (RationalFunction.ofExpr_of_eq_some hf fits).hasValue defined.denotes
  rw [Function.update_self, zero] at value
  have nonzero := value.denom_ne_zero
  have root := value.value
  rw [zero_mul] at root
  rw [Poly.valueAt_ratCast] at nonzero root
  exact ⟨by exact_mod_cast nonzero, by exact_mod_cast root⟩

/-- The quotient `sin x / (x + x²)` is a genuine form 0/0 at zero. -/
theorem lHopital?_zero_over_zero_sine :
    let n : Expr := .sin (.var "x")
    let d : Expr := .add (.var "x") (.square (.var "x"))
    ∃ next, (Expr.div n d).lHopital? "x" 0 = some next ∧
      ∀ a ∈ [n, d], Tendsto (fun t => a.evalAt (Function.update (fun _ => 0) "x" t)) (𝓝[>] ((0 : Rat) : ℝ))
        (𝓝 0) := by
  intro n d
  have hn : n.simplifiedValueAt? "x" 0 = some 0 := by
    rw [simplifiedValueAt?, simplifyFully_eq_iterate]
    decide +kernel
  have hd : d.simplifiedValueAt? "x" 0 = some 0 := by
    rw [simplifiedValueAt?, simplifyFully_eq_iterate]
    decide +kernel
  have applied : (Expr.div n d).lHopital? "x" 0 = some (.div (n.derivative "x") (d.derivative "x")) :=
    lHopital?_div hn hd
  obtain ⟨_, _, split_e, -, genuine⟩ := lHopital?_zero_over_zero applied
  obtain ⟨rfl, rfl⟩ := Prod.mk.inj (Option.some.inj split_e)
  refine ⟨_, applied, fun a ha => ?_⟩
  obtain ⟨defined, differentiable⟩ :
      a.DefinedAt (Function.update (fun _ => 0) "x" ((0 : Rat) : ℝ)) ∧
      a.PowersDifferentiable "x" (Function.update (fun _ => 0) "x" ((0 : Rat) : ℝ)) := by
    rcases List.mem_pair.mp ha with rfl | rfl
    · simp [n, DefinedAt, PowersDifferentiable]
    · simp [d, square, DefinedAt, PowersDifferentiable, PowerDefined, evalAt, mentions]
  exact (genuine a ha _ defined).2.1 differentiable

/-- The test for zero is passed by `x x⁻¹` and by `sin x · (1 / x)` at zero, although both tend to one:
the rule is applied, and zero is given as the limit of a quotient that tends to one. -/
theorem lHopital_applied_to_one_over_one :
    let n : Expr := .mul (.var "x") (.pow (.var "x") (.neg .one))
    let d : Expr := .mul (.sin (.var "x")) (.div .one (.var "x"))
    (∀ ρ, Tendsto (fun t => n.evalAt (Function.update ρ "x" t)) (𝓝[>] 0) (𝓝 1)) ∧
      (∀ ρ, Tendsto (fun t => d.evalAt (Function.update ρ "x" t)) (𝓝[>] 0) (𝓝 1)) ∧
      ∀ depth, limitFrom? "x" 0 (.div n d) (depth + 1) =
        limitFrom? "x" 0 (.div (n.derivative "x") (d.derivative "x")) depth ∧
        (Expr.div n d).limit "x" 0 (depth + 1) = .ok (.finite .zero) := by
  intro n d
  have hn : n.simplifiedValueAt? "x" 0 = some 0 := by
    rw [simplifiedValueAt?, simplifyFully_eq_iterate]
    decide +kernel
  have hd : d.simplifiedValueAt? "x" 0 = some 0 := by
    rw [simplifiedValueAt?, simplifyFully_eq_iterate]
    decide +kernel
  have applied : (Expr.div n d).lHopital? "x" 0 = some (.div (n.derivative "x") (d.derivative "x")) :=
    lHopital?_div hn hd
  have simplified : (Expr.div n d).simplifyFully =
      .div .one (.mul (.div .one (.var "x")) (.sin (.var "x"))) := by
    rw [simplifyFully_eq_iterate]
    decide +kernel
  have undefined : (Expr.div n d).simplifyFully.valueAt? "x" 0 = none := by
    rw [simplified]
    decide +kernel
  have irrational : RationalFunction.ofExpr? "x" (Expr.div n d).simplifyFully = none := by
    rw [simplified]
    decide +kernel
  have derivatives : (Expr.div (n.derivative "x") (d.derivative "x")).simplifyFully = .zero := by
    rw [simplifyFully_eq_iterate]
    decide +kernel
  have descended (depth : Nat) : limitFrom? "x" 0 (.div n d) (depth + 1) =
      limitFrom? "x" 0 (.div (n.derivative "x") (d.derivative "x")) depth := by
    rw [limitFrom?]
    simp only [undefined, irrational, applied, Option.bind_eq_bind, Option.bind_some]
  refine ⟨fun ρ => ?_, fun ρ => ?_, fun depth => ⟨descended depth, ?_⟩⟩
  · apply tendsto_const_nhds.congr'
    filter_upwards [self_mem_nhdsWithin] with t ht
    have positive : 0 < t := Set.mem_Ioi.mp ht
    have inverse : t ^ (-1 : ℝ) = t⁻¹ := Real.rpow_neg_one t
    simp [n, evalAt, one, inverse, positive.ne']
  · have continuous : Tendsto Real.sinc (𝓝[>] 0) (𝓝 1) := by
      have at_zero := Real.continuous_sinc.tendsto 0
      rw [Real.sinc_zero] at at_zero
      exact at_zero.mono_left nhdsWithin_le_nhds
    apply continuous.congr'
    filter_upwards [self_mem_nhdsWithin] with t ht
    have positive : 0 < t := Set.mem_Ioi.mp ht
    rw [Real.sinc_of_ne_zero positive.ne']
    simp [d, evalAt, one, div_eq_mul_inv]
  · rw [limit, descended, limitFrom?.eq_def]
    have value : Expr.zero.valueAt? "x" 0 = some (.finite .zero) := by decide +kernel
    simp only [derivatives, value]

end Tutor.Expr
