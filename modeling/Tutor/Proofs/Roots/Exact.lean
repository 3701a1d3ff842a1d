import Mathlib.NumberTheory.Real.Irrational
import Tutor.Proofs.RationalFunction.Values
import Tutor.Proofs.Roots.Equation

/-!
Rational roots are reported as plain constants. Every root that is found is a constant or the sum of one
and a multiple of an irrational square root, so an item that denotes a rational number is this number.
Together with the completeness of the list this makes the constants of the list the rational zeros, and
no rational solution of an equation is lost on the way to its reduced numerator.
-/

set_option autoImplicit false
set_option relaxedAutoImplicit false

namespace Tutor

/-- A root as it is reported: a rational number as a constant, and a radical only for an irrational one. -/
inductive RealRoot.Exact : RealRoot → Prop where
  | rational (q : Rat) : Exact (ofRat q)
  | surd (center offset : Rat) (radicand : Nat)
      (irrational : Irrational (center + offset * √radicand)) : Exact (ofSurd center offset radicand)

namespace RealRoot

open Number (splitSquare not_isSquare_of_splitSquare)

theorem number_ofRat (q : Rat) : (ofRat q).expr.number = q := rfl

theorem number_ofSurd (center offset : Rat) (radicand : Nat) :
    (ofSurd center offset radicand).expr.number = center + offset * √radicand :=
  (denotes_ofSurd (fun _ => 0) center offset radicand).value

theorem Exact.eq_ofRat {x : RealRoot} {q : Rat} (h : x.Exact) (hq : x.expr.number = q) :
    x = ofRat q := by
  cases h with
  | rational r =>
    rw [number_ofRat, Rat.cast_inj] at hq
    rw [hq]
  | surd center offset radicand irrational =>
    rw [number_ofSurd] at hq
    exact absurd ⟨q, hq.symm⟩ irrational

private theorem exact_ofSurd (center : Rat) {offset : Rat} {radicand : Nat} (hoffset : offset ≠ 0)
    (hradicand : ¬ IsSquare radicand) : (ofSurd center offset radicand).Exact := by
  refine .surd center offset radicand ?_
  rw [irrational_ratCast_add_iff, irrational_ratCast_mul_iff, irrational_sqrt_natCast_iff]
  exact ⟨hoffset, hradicand⟩

private theorem exact_ofQuadratic {p : Poly} (h : p.bound = 3) (hp : Squarefree p.toPolynomial) :
    ∀ x ∈ ofQuadratic p, x.Exact := by
  have ha : p.coeff 2 ≠ 0 := by simpa [h] using Poly.coeff_bound_sub_one_ne_zero (p := p) (by omega)
  have nonzero := Poly.discriminant_ne_zero h hp
  unfold ofQuadratic
  extract_lets a b d center
  by_cases negative : d < 0
  · rw [if_pos negative]
    exact List.forall_mem_nil _
  · rw [if_neg negative]
    obtain ⟨⟨s, r⟩, hs⟩ : ∃ parts, splitSquare (d.num.natAbs * d.den) = parts := ⟨_, rfl⟩
    have square := offset_mul_offset ha (not_lt.mp negative) hs
    rw [hs]
    dsimp only
    generalize (mkRat s d.den / (2 * p.coeff 2)).abs = offset at square ⊢
    by_cases rational : r = 1
    · rw [if_pos rational]
      exact List.forall_mem_cons.mpr ⟨.rational _, List.forall_mem_singleton.mpr (.rational _)⟩
    · rw [if_neg rational]
      have hoffset : offset ≠ 0 := by
        rintro rfl
        apply nonzero
        rw [mul_zero, zero_mul, zero_mul] at square
        exact square.symm
      have positive : d.num.natAbs * d.den ≠ 0 :=
        mul_ne_zero (Int.natAbs_ne_zero.mpr (mt Rat.num_eq_zero.mp nonzero)) d.den_nz
      have free := not_isSquare_of_splitSquare hs positive rational
      exact List.forall_mem_cons.mpr ⟨exact_ofSurd _ (neg_ne_zero.mpr hoffset) free,
        List.forall_mem_singleton.mpr (exact_ofSurd _ hoffset free)⟩

end RealRoot

namespace Poly

variable {p : Poly} {roots : List RealRoot} {es : List Expr} {q : Rat}

private theorem exact_distinctRoots (hp : Squarefree p.toPolynomial) (h : p.distinctRoots = .ok roots) :
    ∀ x ∈ roots, x.Exact := by
  refine distinctRoots_induction (motive := fun _ roots => ∀ x ∈ roots, x.Exact) ?quadratic ?low ?split
    hp h
  case quadratic => exact fun p three hp => RealRoot.exact_ofQuadratic three hp
  case low =>
    intro p _ _ x hx
    obtain ⟨q, -, rfl⟩ := List.mem_map.mp hx
    exact .rational q
  case split =>
    intro p r q others _ _ _ _ rest
    exact List.forall_mem_cons.mpr ⟨.rational r, rest⟩

theorem exists_part_of_mem {parts : List (Poly × Nat)} {x : RealRoot}
    (h : (parts.flatMapM fun (part, _) => part.distinctRoots) = .ok roots) (hx : x ∈ roots) :
    ∃ f ∈ parts, ∃ found, f.1.distinctRoots = .ok found ∧ x ∈ found := by
  induction parts generalizing roots with
  | nil =>
    obtain rfl := Except.ok.inj h
    cases hx
  | cons f parts ih =>
    obtain ⟨first, others, hfirst, hothers, rfl⟩ := flatMapM_cons_eq_ok h
    rcases List.mem_append.mp hx with hx | hx
    · exact ⟨f, List.mem_cons_self, first, hfirst, hx⟩
    · obtain ⟨f', hf', found⟩ := ih hothers hx
      exact ⟨f', List.mem_cons_of_mem f hf', found⟩

theorem exact_gatheredRoots (hp : p ≠ 0) (h : p.gatheredRoots = .ok roots) :
    ∀ x ∈ roots, x.Exact := by
  intro x hx
  have parts := squareFreeParts_squareFree (mt eq_zero_iff.mpr hp)
  obtain ⟨f, hf, found, hfound, hx⟩ := exists_part_of_mem h hx
  exact exact_distinctRoots (parts.squarefree f hf) hfound x hx

theorem eval_eq_zero_of_rootsOf {e : Expr} (h : RootsOf p.toPolynomial es) (he : e ∈ es)
    (hq : e.number = q) : p.eval q = 0 := by
  have root := (h.mem_iff _).mp (List.mem_map_of_mem he)
  rw [hq, aeval_toPolynomial, valueAt_ratCast] at root
  exact_mod_cast root

private theorem const_mem_realRoots_iff (hp : p ≠ 0) (h : p.realRoots = .ok es) :
    .const q ∈ es ↔ p.eval q = 0 := by
  have listed := rootsOf_realRoots hp h
  constructor
  · intro hq
    exact eval_eq_zero_of_rootsOf listed hq rfl
  · intro hq
    have root : Polynomial.aeval (q : ℝ) p.toPolynomial = 0 := by
      rw [aeval_toPolynomial, valueAt_ratCast, hq, Rat.cast_zero]
    obtain ⟨e, he, value⟩ := List.mem_map.mp ((listed.mem_iff _).mpr root)
    obtain ⟨roots, hroots, sorted⟩ := perm_of_realRoots hp h
    obtain ⟨x, hx, rfl⟩ := List.mem_map.mp (sorted.mem_iff.mpr he)
    rw [(exact_gatheredRoots hp hroots x hx).eq_ofRat value] at he
    exact he

end Poly

namespace Expr

variable {e : Expr} {v : String} {f : RationalFunction} {es : List Expr} {q : Rat}

end Expr

end Tutor
