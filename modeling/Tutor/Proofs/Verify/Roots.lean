import Tutor.Proofs.Expr.Grammar
import Tutor.Proofs.RationalFunction.Values
import Tutor.Proofs.Verify.Exact
import Tutor.Solve.Equation

/-!
Equations without solutions. That no roots were found is accepted exactly if the reduced numerator of the
equation is a constant other than zero, so the equation is zero at no rational number where it has an exact
value, as long as no sum of powers wraps around. An equation that is solved is accepted if it has such a
numerator, whatever cancels on the way to it.
-/

set_option autoImplicit false
set_option relaxedAutoImplicit false

namespace Tutor

namespace Poly

variable {p : Poly} {c : Rat}

private theorem degree?_eq_zero_iff : p.degree? = some 0 ↔ ∃ c, c ≠ 0 ∧ p = .const c := by
  constructor
  · intro h
    obtain ⟨terms, canonical, words⟩ := p
    rcases terms with _ | ⟨⟨n, c⟩, rest⟩
    · cases h
    · obtain rfl : n = 0 := by simpa [degree?] using h
      obtain ⟨nonzero, below, -⟩ := canonical_cons.mp canonical
      obtain rfl : rest = [] := List.eq_nil_iff_forall_not_mem.mpr fun t ht => absurd (below t ht) (by simp)
      exact ⟨c, nonzero, by simp [const, monomial, nonzero]⟩
  · rintro ⟨c, nonzero, rfl⟩
    simp [const, monomial, nonzero, degree?]

private theorem eval_const (c q : Rat) : (const c).eval q = c := by
  rw [← eval_toPolynomial, toPolynomial_const, Polynomial.eval_C]

private theorem realRoots_const (c : Rat) : (const c).realRoots = .ok [] := by
  have small : (const c).bound ≤ 1 := bound_monomial_le 0 c
  have parts : (const c).squareFree = [] := by rw [squareFree, if_pos small]
  rw [realRoots, parts, List.flatMapM_nil]
  change Except.ok (dropRepeats ((([] : List RealRoot).mergeSort _).map _)) = _
  simp [dropRepeats]

end Poly

namespace Verify

variable {e : Expr} {v : String} {s : Solution}

private theorem issue?_noRootsFinding_eq_none_iff : (noRootsFinding e v).issue? = none ↔
    ∃ f c, RationalFunction.ofExpr? v e = some f ∧ f.numer = .const c ∧ c ≠ 0 := by
  have degree : (noRootsFinding e v).issue? = none ↔
      (RationalFunction.ofExpr? v e).bind (·.numer.degree?) = some 0 := by
    unfold noRootsFinding
    split
    · rename_i constant
      simp [constant, Finding.issue?]
    · rename_i other
      exact iff_of_false (by simp [Finding.issue?]) other
  rw [degree, Option.bind_eq_some_iff]
  simp only [Poly.degree?_eq_zero_iff]
  constructor
  · rintro ⟨f, hf, c, nonzero, constant⟩
    exact ⟨f, c, hf, constant, nonzero⟩
  · rintro ⟨f, c, hf, constant, nonzero⟩
    exact ⟨f, hf, c, nonzero, constant⟩

/-- A solution without roots is valid if its steps can be shown and the reduced numerator of its equation is
a constant other than zero; every other equation may have roots. -/
private theorem valid_noRoots_iff (hc : s.certificate = some (.roots e v)) (ha : s.answer = .roots []) :
    (consistency (.ok s)).valid = true ↔ StepsShown s.steps ∧
      ∃ f c, RationalFunction.ofExpr? v e = some f ∧ f.numer = .const c ∧ c ≠ 0 := by
  rw [valid_consistency_iff hc, ha, ← issue?_noRootsFinding_eq_none_iff]
  simp [certificateFindings, rootFindings]

private theorem exactValue?_ne_zero_of_numer_const {f : RationalFunction} {c : Rat}
    (hf : RationalFunction.ofExpr? v e = some f) (fits : RationalFunction.ofExprFits v e = true)
    (constant : f.numer = .const c) (nonzero : c ≠ 0) (q : Rat) :
    (e.substitute v (.const q)).exactValue? ≠ some 0 := by
  intro zero
  obtain ⟨-, value⟩ := (RationalFunction.ofExpr_of_eq_some hf fits).eval_of_exactValue? zero
  rw [constant, Poly.eval_const, zero_mul] at value
  exact nonzero value

end Verify

namespace Solve

open Verify (StepsShown)

variable {text : String} {settings : SolverSettings} {e : Expr} {f : RationalFunction} {c : Rat}

def noRootsSteps (unknown : String) : List String :=
  ["Converted equation to symbolic form", "Solved for " ++ unknown, "No real roots"]

private theorem stepsShown_noRootsSteps (unknown : String) : StepsShown (noRootsSteps unknown) := by
  have solved : Text.isBlankText ("Solved for " ++ unknown) = false :=
    isBlankText_append_of_left (by decide)
  refine ⟨by simp [noRootsSteps], ?_⟩
  simp only [noRootsSteps, List.forall_mem_cons]
  exact ⟨by decide, solved, by decide, by simp⟩

private theorem equation_of_numer_const (read : Expr.read (Wording.formula text) = .ok e)
    (hf : RationalFunction.ofExpr? settings.unknown e = some f) (constant : f.numer = .const c) :
    equation text settings =
      .ok ⟨noRootsSteps settings.unknown, .roots [], some (.roots e settings.unknown)⟩ := by
  have solved : e.solve settings.unknown = .ok [] := by
    rw [Expr.solve, hf]
    simp only [constant, Poly.realRoots_const]
  rw [equation, read, orRefuse_ok]
  change (do
    let roots ← orRefuse (e.solve settings.unknown)
    _ : Outcome) = _
  rw [solved]
  rfl

end Solve

end Tutor
