import Mathlib.Algebra.QuadraticDiscriminant
import Mathlib.RingTheory.Polynomial.SmallDegreeVieta
import Tutor.Proofs.Number.Square
import Tutor.Proofs.Poly.SquareFree
import Tutor.Proofs.Roots.Rational
import Tutor.Proofs.Simplify.Pass
import Tutor.Roots.Real

/-!
The real roots of a polynomial are found, each of them once. Two lists of roots of polynomials without
a common factor join to the roots of the product; so the roots of the square-free parts are the roots
of the polynomial, and what is left after a rational root is split off has the other roots.
-/

set_option autoImplicit false
set_option relaxedAutoImplicit false

open scoped Polynomial

namespace Tutor

open Tutor.Expr (Denotes)

noncomputable def Expr.number (e : Expr) : ℝ := e.evalAt fun _ => 0

/-- Some expressions denote the real roots of a polynomial, under every assignment, and each root is
denoted once. -/
structure RootsOf (f : ℚ[X]) (es : List Expr) : Prop where
  denotes : ∀ e ∈ es, ∀ ρ, Denotes ρ e e.number
  mem_iff : ∀ a : ℝ, a ∈ es.map Expr.number ↔ Polynomial.aeval a f = 0
  nodup : (es.map Expr.number).Nodup

namespace RootsOf

variable {f g : ℚ[X]} {e e' : Expr} {es es' : List Expr} {x x' : ℝ}

private theorem denotes_number (he : ∀ ρ, Denotes ρ e x) (ρ : String → ℝ) : Denotes ρ e e.number := by
  rw [Expr.number, (he _).value]
  exact he ρ

theorem nil (h : ∀ a : ℝ, Polynomial.aeval a f ≠ 0) : RootsOf f [] := by
  refine ⟨by simp, fun a => ?_, .nil⟩
  exact iff_of_false List.not_mem_nil (h a)

theorem singleton (he : ∀ ρ, Denotes ρ e x) (h : ∀ a : ℝ, Polynomial.aeval a f = 0 ↔ a = x) :
    RootsOf f [e] := by
  refine ⟨List.forall_mem_singleton.mpr (denotes_number he), fun a => ?_, List.nodup_singleton _⟩
  rw [List.map_singleton, List.mem_singleton, Expr.number, (he _).value, h]

theorem pair (he : ∀ ρ, Denotes ρ e x) (he' : ∀ ρ, Denotes ρ e' x') (hne : x ≠ x')
    (h : ∀ a : ℝ, Polynomial.aeval a f = 0 ↔ a = x ∨ a = x') : RootsOf f [e, e'] := by
  have value : e.number = x := (he _).value
  have value' : e'.number = x' := (he' _).value
  refine ⟨?_, fun a => ?_, ?_⟩
  · simpa only [List.mem_cons, List.not_mem_nil, or_false, forall_eq_or_imp, forall_eq] using
      ⟨denotes_number he, denotes_number he'⟩
  · simp [value, value', h]
  · simp [value, value', hne]

theorem append (h : RootsOf f es) (h' : RootsOf g es') (hfg : IsCoprime f g) :
    RootsOf (f * g) (es ++ es') := by
  refine ⟨?_, fun a => ?_, ?_⟩
  · intro e he
    exact (List.mem_append.mp he).elim (h.denotes e) (h'.denotes e)
  · rw [List.map_append, List.mem_append, h.mem_iff, h'.mem_iff, map_mul, mul_eq_zero]
  · rw [List.map_append, List.nodup_append']
    refine ⟨h.nodup, h'.nodup, ?_⟩
    intro a ha ha'
    obtain ⟨u, v, huv⟩ := hfg
    have bezout := congrArg (Polynomial.aeval a) huv
    rw [map_add, map_mul, map_mul, (h.mem_iff a).mp ha, (h'.mem_iff a).mp ha', map_one] at bezout
    simp at bezout

theorem perm (h : RootsOf f es) (hp : es.Perm es') : RootsOf f es' := by
  refine ⟨fun e he => h.denotes e (hp.mem_iff.mpr he), fun a => ?_, ?_⟩
  · rw [← h.mem_iff, (hp.map _).mem_iff]
  · exact (hp.map _).nodup_iff.mp h.nodup

theorem congr (h : RootsOf f es)
    (hfg : ∀ a : ℝ, Polynomial.aeval a f = 0 ↔ Polynomial.aeval a g = 0) : RootsOf g es :=
  ⟨h.denotes, fun a => (h.mem_iff a).trans (hfg a), h.nodup⟩

theorem linear (r : Rat) : RootsOf (Polynomial.X - Polynomial.C r) [.const r] := by
  refine singleton (fun _ => Expr.denotes_const r) fun a => ?_
  rw [map_sub, Polynomial.aeval_X, Polynomial.aeval_C, eq_ratCast, sub_eq_zero]

end RootsOf

/-! ### Low degrees -/

namespace Poly

variable {p : Poly}

private theorem toPolynomial_of_bound_le_three (h : p.bound ≤ 3) : p.toPolynomial =
    Polynomial.C (p.coeff 2) * Polynomial.X ^ 2 + Polynomial.C (p.coeff 1) * Polynomial.X +
      Polynomial.C (p.coeff 0) := by
  have degree : p.toPolynomial.degree ≤ 2 := by
    rw [Polynomial.degree_le_iff_coeff_zero]
    intro n hn
    have hn' : 2 < n := by exact_mod_cast hn
    exact toPolynomial_coeff_of_bound_le (by omega)
  rw [← coeff_toPolynomial, ← coeff_toPolynomial, ← coeff_toPolynomial]
  exact Polynomial.eq_quadratic_of_degree_le_two degree

theorem coeff_bound_sub_one_ne_zero (h : p.bound ≠ 0) : p.coeff (p.bound - 1) ≠ 0 := by
  obtain ⟨degree, -, hp⟩ := exists_highest h
  rw [← coeff_toPolynomial, degree, Nat.add_sub_cancel]
  exact Polynomial.leadingCoeff_ne_zero.mpr hp

private theorem toPolynomial_of_discriminant_eq_zero (h : p.bound = 3)
    (hzero : p.coeff 1 * p.coeff 1 - 4 * p.coeff 2 * p.coeff 0 = 0) :
    ∃ r : Rat, p.toPolynomial = Polynomial.C (p.coeff 2) *
      ((Polynomial.X - Polynomial.C r) * (Polynomial.X - Polynomial.C r)) := by
  have ha : p.coeff 2 ≠ 0 := by simpa [h] using coeff_bound_sub_one_ne_zero (p := p) (by omega)
  have constant : p.coeff 0 =
      p.coeff 2 * (-p.coeff 1 / (2 * p.coeff 2) * (-p.coeff 1 / (2 * p.coeff 2))) := by
    field_simp
    linear_combination -hzero
  have middle : p.coeff 1 = -(p.coeff 2 * (2 * (-p.coeff 1 / (2 * p.coeff 2)))) := by
    field_simp
  have two : Polynomial.C (2 : ℚ) = 2 := rfl
  refine ⟨-p.coeff 1 / (2 * p.coeff 2), ?_⟩
  generalize -p.coeff 1 / (2 * p.coeff 2) = r at constant middle ⊢
  rw [toPolynomial_of_bound_le_three h.le, constant, middle]
  simp only [map_mul, map_neg, two]
  ring

theorem discriminant_ne_zero (h : p.bound = 3) (hp : Squarefree p.toPolynomial) :
    p.coeff 1 * p.coeff 1 - 4 * p.coeff 2 * p.coeff 0 ≠ 0 := by
  intro hzero
  obtain ⟨r, square⟩ := toPolynomial_of_discriminant_eq_zero h hzero
  have repeated : (Polynomial.X - Polynomial.C r) * (Polynomial.X - Polynomial.C r) ∣
      p.toPolynomial := by
    rw [square]
    exact Dvd.intro_left _ rfl
  exact Polynomial.not_isUnit_X_sub_C r (hp _ repeated)

private theorem aeval_of_bound_le_three (h : p.bound ≤ 3) (t : ℝ) : Polynomial.aeval t p.toPolynomial =
    p.coeff 2 * (t * t) + p.coeff 1 * t + p.coeff 0 := by
  rw [toPolynomial_of_bound_le_three h]
  simp only [map_add, map_mul, map_pow, Polynomial.aeval_C, Polynomial.aeval_X, eq_ratCast]
  ring

private theorem linearRoot?_of_bound_eq_two (h : p.bound = 2) :
    p.linearRoot? = some (-p.coeff 0 / p.coeff 1) := by
  have degree : p.degree? = some 1 := by
    rw [bound] at h
    cases hd : p.degree? with
    | none => rw [hd] at h; cases h
    | some n =>
      rw [hd, Option.map_some, Option.getD_some] at h
      rw [Nat.succ.inj h]
  rw [linearRoot?, if_pos degree]

private theorem linearRoot?_of_bound_eq_one (h : p.bound = 1) : p.linearRoot? = none := by
  have degree : p.degree? ≠ some 1 := by
    intro hd
    rw [bound, hd] at h
    cases h
  rw [linearRoot?, if_neg degree]

private theorem rootsOf_linearRoot? (h : p.bound ≤ 2) (hp : p.toPolynomial ≠ 0) :
    RootsOf p.toPolynomial (p.linearRoot?.toList.map Expr.const) := by
  have hbound : p.bound ≠ 0 := mt toPolynomial_eq_zero_iff.mpr hp
  have value := aeval_of_bound_le_three (p := p) (by omega)
  rw [← coeff_toPolynomial p 2, toPolynomial_coeff_of_bound_le h] at value
  rcases (by omega : p.bound = 1 ∨ p.bound = 2) with hone | htwo
  · rw [linearRoot?_of_bound_eq_one hone]
    refine .nil fun t => ?_
    have hc : p.coeff 0 ≠ 0 := by simpa [hone] using coeff_bound_sub_one_ne_zero hbound
    rw [value, ← coeff_toPolynomial p 1, toPolynomial_coeff_of_bound_le hone.le]
    simpa using hc
  · rw [linearRoot?_of_bound_eq_two htwo]
    refine .singleton (fun _ => Expr.denotes_const _) fun t => ?_
    have hb : p.coeff 1 ≠ 0 := by simpa [htwo] using coeff_bound_sub_one_ne_zero hbound
    have hb' : (p.coeff 1 : ℝ) ≠ 0 := mod_cast hb
    rw [value, Rat.cast_zero, zero_mul, zero_add, Rat.cast_div, Rat.cast_neg, eq_div_iff hb']
    constructor <;> intro ht <;> linarith

end Poly

namespace RealRoot

open Number (splitSquare product_of_splitSquare)

theorem offset_mul_offset {a d : Rat} {s r : Nat} (ha : a ≠ 0) (hd : 0 ≤ d)
    (h : splitSquare (d.num.natAbs * d.den) = (s, r)) :
    (mkRat s d.den / (2 * a)).abs * (mkRat s d.den / (2 * a)).abs * r * (2 * a) ^ 2 = d := by
  have hden : (d.den : Rat) ≠ 0 := Nat.cast_ne_zero.mpr d.den_nz
  have hnum : ((d.num.natAbs : Nat) : Rat) = d * d.den := by
    rw [Rat.mul_den_eq_num, Nat.cast_natAbs, abs_of_nonneg (Rat.num_nonneg.mpr hd)]
  have product : (s : Rat) * s * r = d * d.den * d.den := by
    rw [← hnum]
    exact_mod_cast product_of_splitSquare h
  have abs_mul_abs (q : Rat) : q.abs * q.abs = q * q := by
    unfold Rat.abs
    split
    · rfl
    · exact neg_mul_neg q q
  rw [abs_mul_abs, Rat.mkRat_eq_div, Int.cast_natCast]
  field_simp
  linear_combination product

theorem denotes_ofSurd (ρ : String → ℝ) (center offset : Rat) (radicand : Nat) :
    Denotes ρ (ofSurd center offset radicand).expr (center + offset * √radicand) := by
  refine Expr.denotes_simplifyWithLimit ?_ _
  refine Expr.denotes_add.mpr ⟨_, _, Expr.denotes_const center, ?_, rfl⟩
  refine Expr.denotes_mul.mpr ⟨_, _, Expr.denotes_const offset, ?_, rfl⟩
  refine Expr.denotes_pow_const.mpr ⟨radicand, ?_, ?_, ?_⟩
  · change Denotes ρ (.const (radicand : Int)) radicand
    simpa using Expr.denotes_const (ρ := ρ) (radicand : Int)
  · exact .of_nonneg (Nat.cast_nonneg radicand) (by norm_num)
  · rw [Real.sqrt_eq_rpow]
    norm_num

private theorem quadratic_ne_zero {a b c d : ℝ} (hd : b * b - 4 * a * c = d) (negative : d < 0) (t : ℝ) :
    a * (t * t) + b * t + c ≠ 0 := by
  intro ht
  have square := discrim_eq_sq_of_quadratic_eq_zero ht
  rw [discrim, sq, hd] at square
  linarith [sq_nonneg (2 * a * t + b)]

/-- With an offset whose square is the discriminant over `4a²`, the roots lie on both sides of the
center. -/
private theorem quadratic_roots {a b c d δ : ℝ} (ha : a ≠ 0) (hd : b * b - 4 * a * c = d)
    (hδ : δ * δ * (2 * a) ^ 2 = d) (t : ℝ) :
    a * (t * t) + b * t + c = 0 ↔ t = -b / (2 * a) - δ ∨ t = -b / (2 * a) + δ := by
  have root : discrim a b c = 2 * a * δ * (2 * a * δ) := by
    rw [discrim]
    linear_combination hd - hδ
  rw [quadratic_eq_zero_iff ha root, or_comm, add_div, sub_div,
    mul_div_cancel_left₀ _ (mul_ne_zero two_ne_zero ha)]

theorem rootsOf_ofQuadratic {p : Poly} (h : p.bound = 3) (hp : Squarefree p.toPolynomial) :
    RootsOf p.toPolynomial ((ofQuadratic p).map expr) := by
  have ha : p.coeff 2 ≠ 0 := by simpa [h] using Poly.coeff_bound_sub_one_ne_zero (p := p) (by omega)
  have ha' : (p.coeff 2 : ℝ) ≠ 0 := mod_cast ha
  have value := Poly.aeval_of_bound_le_three h.le
  have nonzero := Poly.discriminant_ne_zero h hp
  unfold ofQuadratic
  extract_lets a b d center
  have hd' : (p.coeff 1 * p.coeff 1 - 4 * p.coeff 2 * p.coeff 0 : ℝ) = d := by simp [a, b, d]
  by_cases negative : d < 0
  · rw [if_pos negative]
    refine .nil fun t => ?_
    rw [value]
    exact quadratic_ne_zero hd' (mod_cast negative) t
  · rw [if_neg negative]
    obtain ⟨⟨s, r⟩, hs⟩ : ∃ parts, splitSquare (d.num.natAbs * d.den) = parts := ⟨_, rfl⟩
    have offset := offset_mul_offset ha (not_lt.mp negative) hs
    rw [hs]
    dsimp only
    generalize (mkRat s d.den / (2 * p.coeff 2)).abs = q at offset ⊢
    have hδ : (q * √r) * (q * √r) * (2 * p.coeff 2 : ℝ) ^ 2 = d := by
      have offset' : (q * q * r * (2 * p.coeff 2) ^ 2 : ℝ) = d := mod_cast offset
      rw [← offset', mul_mul_mul_comm, Real.mul_self_sqrt (Nat.cast_nonneg r)]
    have roots (t : ℝ) := (value t).symm ▸ quadratic_roots ha' hd' hδ t
    have apart : (-p.coeff 1 / (2 * p.coeff 2) - q * √r : ℝ) ≠
        -p.coeff 1 / (2 * p.coeff 2) + q * √r := by
      intro same
      have none : (q * √r : ℝ) = 0 := by linarith
      rw [none, mul_zero, zero_mul] at hδ
      exact nonzero (mod_cast hδ.symm)
    by_cases rational : r = 1
    · rw [if_pos rational]
      rw [rational, Nat.cast_one, Real.sqrt_one, mul_one] at roots apart
      refine .pair (fun _ => Expr.denotes_const _) (fun _ => Expr.denotes_const _) ?_ ?_
      · exact_mod_cast apart
      · push_cast [center, a, b]
        exact roots
    · rw [if_neg rational]
      have left := fun ρ => denotes_ofSurd ρ (-p.coeff 1 / (2 * p.coeff 2)) (-q) r
      have right := fun ρ => denotes_ofSurd ρ (-p.coeff 1 / (2 * p.coeff 2)) q r
      push_cast [neg_mul, ← sub_eq_add_neg] at left right
      exact .pair left right apart roots

end RealRoot

namespace Poly

/-! ### Splitting off rational roots -/

theorem exists_divExact?_linear {p : Poly} {r : Rat} (h : p.eval r = 0) : ∃ q : Poly,
    p.divExact? (linear r) = some q ∧
      p.toPolynomial = (Polynomial.X - Polynomial.C r) * q.toPolynomial := by
  obtain ⟨q, hq⟩ := exists_divExact? (bound_linear_ne_zero r) (linear_dvd_iff.mpr h)
  refine ⟨q, hq, ?_⟩
  rw [(divExact?_eq_some_iff (bound_linear_ne_zero r)).mp hq, toPolynomial_linear, mul_comm]

/-- Induction on how the roots of a polynomial without repeated factors are found: those of a low degree
at once, and a rational root of a higher degree before those of the quotient. -/
@[elab_as_elim]
theorem distinctRoots_induction {motive : Poly → List RealRoot → Prop}
    (quadratic : ∀ p, p.bound = 3 → Squarefree p.toPolynomial → motive p (RealRoot.ofQuadratic p))
    (low : ∀ p, p.bound ≤ 2 → Squarefree p.toPolynomial →
      motive p (p.linearRoot?.toList.map RealRoot.ofRat))
    (split : ∀ p r q others, p.rationalRoot? = .ok (some r) →
      p.toPolynomial = (Polynomial.X - Polynomial.C r) * q.toPolynomial → Squarefree p.toPolynomial →
      q.distinctRoots = .ok others → motive q others → motive p (RealRoot.ofRat r :: others))
    {p : Poly} {roots : List RealRoot} (hp : Squarefree p.toPolynomial)
    (h : p.distinctRoots = .ok roots) : motive p roots := by
  induction hn : p.bound using Nat.strongRecOn generalizing p roots with
  | ind n ih =>
    rw [distinctRoots] at h
    split_ifs at h with _ three
    · obtain rfl := Except.ok.inj h
      exact quadratic p three hp
    · obtain rfl := Except.ok.inj h
      exact low p (by omega) hp
    · obtain ⟨root, hroot, h⟩ := bind_eq_ok.mp h
      cases root with
      | none => cases h
      | some r =>
        obtain ⟨q, hq, hsplit⟩ := exists_divExact?_linear (eval_rationalRoot? hroot)
        obtain ⟨others, hothers, h⟩ := bind_eq_ok.mp h
        obtain rfl := Except.ok.inj h
        rw [hq, Option.getD_some] at hothers
        have lower : q.bound < n := hn ▸ bound_divExact?_lt (by omega) (one_lt_bound_linear r) hq
        have free : Squarefree q.toPolynomial := hp.squarefree_of_dvd (hsplit ▸ Dvd.intro_left _ rfl)
        exact split p r q others hroot hsplit hp hothers (ih q.bound lower free hothers rfl)

theorem rootsOf_distinctRoots {p : Poly} {roots : List RealRoot}
    (hp : Squarefree p.toPolynomial) (h : p.distinctRoots = .ok roots) :
    RootsOf p.toPolynomial (roots.map RealRoot.expr) := by
  refine distinctRoots_induction ?quadratic ?low ?split hp h
  case quadratic => exact fun p three hp => RealRoot.rootsOf_ofQuadratic three hp
  case low =>
    intro p two hp
    rw [List.map_map]
    exact rootsOf_linearRoot? two hp.ne_zero
  case split =>
    intro p r q others _ hsplit hp _ rest
    rw [hsplit, squarefree_mul_iff] at hp
    rw [hsplit]
    exact (RootsOf.linear r).append rest hp.1.isCoprime

/-! ### Joining the parts -/

theorem flatMapM_cons_eq_ok {α β : Type} {f : α → Except Failure (List β)} {a : α} {as : List α}
    {bs : List β} (h : (a :: as).flatMapM f = .ok bs) :
    ∃ first others, f a = .ok first ∧ as.flatMapM f = .ok others ∧ bs = first ++ others := by
  rw [List.flatMapM_cons] at h
  obtain ⟨first, hfirst, h⟩ := bind_eq_ok.mp h
  obtain ⟨others, hothers, h⟩ := bind_eq_ok.mp h
  exact ⟨first, others, hfirst, hothers, (Except.ok.inj h).symm⟩

private theorem rootsOf_parts {parts : List (Poly × Nat)} {roots : List RealRoot}
    (hfree : ∀ f ∈ parts, Squarefree f.1.toPolynomial)
    (hcoprime : parts.Pairwise fun f f' => IsCoprime f.1.toPolynomial f'.1.toPolynomial)
    (h : (parts.flatMapM fun (part, _) => part.distinctRoots) = .ok roots) :
    RootsOf (parts.map fun f => f.1.toPolynomial).prod (roots.map RealRoot.expr) := by
  induction parts generalizing roots with
  | nil =>
    obtain rfl := Except.ok.inj h
    refine .nil fun t => ?_
    rw [List.map_nil, List.prod_nil, map_one]
    exact one_ne_zero
  | cons f parts ih =>
    obtain ⟨first, others, hfirst, hothers, rfl⟩ := flatMapM_cons_eq_ok h
    obtain ⟨hfree₁, hfree₂⟩ := List.forall_mem_cons.mp hfree
    obtain ⟨hcoprime₁, hcoprime₂⟩ := List.pairwise_cons.mp hcoprime
    have apart : IsCoprime f.1.toPolynomial (parts.map fun f => f.1.toPolynomial).prod :=
      isCoprime_prod (List.forall_mem_map.mpr hcoprime₁)
    rw [List.map_append, List.map_cons, List.prod_cons]
    exact (rootsOf_distinctRoots hfree₁ hfirst).append (ih hfree₂ hcoprime₂ hothers) apart

private theorem aeval_prod_pow_eq_zero_iff {parts : List (Poly × Nat)} (h : ∀ f ∈ parts, 1 ≤ f.2) (t : ℝ) :
    Polynomial.aeval t (parts.map fun f => f.1.toPolynomial ^ f.2).prod = 0 ↔
      Polynomial.aeval t (parts.map fun f => f.1.toPolynomial).prod = 0 := by
  induction parts with
  | nil => rfl
  | cons f parts ih =>
    obtain ⟨hf, hparts⟩ := List.forall_mem_cons.mp h
    rw [List.map_cons, List.map_cons, List.prod_cons, List.prod_cons, map_mul, map_mul, map_pow,
      mul_eq_zero, mul_eq_zero, ih hparts, pow_eq_zero_iff (Nat.one_le_iff_ne_zero.mp hf)]

theorem dropRepeats_of_nodup {es : List Expr} (h : es.Nodup) : dropRepeats es = es := by
  induction es with
  | nil => rw [dropRepeats.eq_def]
  | cons e es ih =>
    cases es with
    | nil => rw [dropRepeats.eq_def]
    | cons e' es =>
      have different : e ≠ e' := List.ne_of_not_mem_cons (List.nodup_cons.mp h).1
      rw [dropRepeats, if_neg different, ih (List.nodup_cons.mp h).2]

/-- The roots of the square-free parts, in the order in which they are found. -/
def gatheredRoots (p : Poly) : Except Failure (List RealRoot) :=
  p.squareFree.flatMapM fun (part, _) => part.distinctRoots

theorem eq_map_mergeSort_of_realRoots {p : Poly} {es : List Expr} (hp : p ≠ 0)
    (h : p.realRoots = .ok es) : ∃ roots : List RealRoot, p.gatheredRoots = .ok roots ∧
      es = (roots.mergeSort fun a b =>
        Number.totalOrderKey a.approx ≤ Number.totalOrderKey b.approx).map RealRoot.expr := by
  have parts := squareFreeParts_squareFree (mt eq_zero_iff.mpr hp)
  obtain ⟨roots, hroots, h⟩ := bind_eq_ok.mp h
  obtain rfl := Except.ok.inj h
  have sorted := (List.mergeSort_perm roots fun a b =>
    Number.totalOrderKey a.approx ≤ Number.totalOrderKey b.approx).symm.map RealRoot.expr
  have joined := (rootsOf_parts parts.squarefree parts.coprime hroots).perm sorted
  exact ⟨roots, hroots, dropRepeats_of_nodup joined.nodup.of_map⟩

theorem perm_of_realRoots {p : Poly} {es : List Expr} (hp : p ≠ 0) (h : p.realRoots = .ok es) :
    ∃ roots : List RealRoot, p.gatheredRoots = .ok roots ∧ (roots.map RealRoot.expr).Perm es := by
  obtain ⟨roots, hroots, rfl⟩ := eq_map_mergeSort_of_realRoots hp h
  exact ⟨roots, hroots, (List.mergeSort_perm _ _).symm.map _⟩

theorem rootsOf_realRoots {p : Poly} {es : List Expr} (hp : p ≠ 0)
    (h : p.realRoots = .ok es) : RootsOf p.toPolynomial es := by
  have hp' : p.toPolynomial ≠ 0 := mt eq_zero_iff.mpr hp
  have parts := squareFreeParts_squareFree hp'
  obtain ⟨roots, hroots, sorted⟩ := perm_of_realRoots hp h
  have joined := (rootsOf_parts parts.squarefree parts.coprime hroots).perm sorted
  have leading (t : ℝ) :
      Polynomial.aeval t (Polynomial.C p.toPolynomial.leadingCoeff) ≠ 0 := by
    rw [Polynomial.aeval_C, eq_ratCast, Rat.cast_ne_zero]
    exact Polynomial.leadingCoeff_ne_zero.mpr hp'
  refine joined.congr fun t => ?_
  rw [← aeval_prod_pow_eq_zero_iff parts.positive]
  conv_rhs => rw [← parts.product, map_mul, mul_eq_zero, or_iff_right (leading t)]

/-- The real roots of a polynomial that is not zero: every item of the list denotes a root, whatever
the assignment, every real root is denoted by an item, and no two items denote the same number. -/
theorem realRoots_denote_each_root_once {p : Poly} {es : List Expr} (hp : p ≠ 0)
    (h : p.realRoots = .ok es) :
    (∀ e ∈ es, (∀ ρ, Denotes ρ e e.number) ∧ p.valueAt e.number = 0) ∧
      (∀ a : ℝ, p.valueAt a = 0 → ∃ e ∈ es, e.number = a) ∧
      es.Pairwise fun e e' => e.number ≠ e'.number := by
  have roots := rootsOf_realRoots hp h
  simp only [← aeval_toPolynomial]
  refine ⟨?_, ?_, ?_⟩
  · intro e he
    exact ⟨roots.denotes e he, (roots.mem_iff _).mp (List.mem_map_of_mem he)⟩
  · intro a ha
    exact List.mem_map.mp ((roots.mem_iff a).mpr ha)
  · exact List.pairwise_map.mp roots.nodup

/-- The roots of `(x - 1)² (x² - 2)` are one, once, and both square roots of two. -/
theorem realRoots_denote_each_root_once_surd : ∃ es : List Expr,
    (ofCoeffs [-2, 4, -1, -2, 1]).realRoots = .ok es ∧
      (∀ a : ℝ, (∃ e ∈ es, e.number = a) ↔ a = 1 ∨ a = √2 ∨ a = -√2) ∧
      es.Pairwise fun e e' => e.number ≠ e'.number := by
  have found : (ofCoeffs [-2, 4, -1, -2, 1]).realRoots.isOk = true := by decide +kernel
  have nonzero : ofCoeffs [-2, 4, -1, -2, 1] ≠ 0 := by decide +kernel
  have terms : (ofCoeffs [-2, 4, -1, -2, 1]).terms = [(4, 1), (3, -2), (2, -1), (1, 4), (0, -2)] := by
    decide +kernel
  have root (a : ℝ) :
      (ofCoeffs [-2, 4, -1, -2, 1]).valueAt a = 0 ↔ a = 1 ∨ a = √2 ∨ a = -√2 := by
    have factored : (ofCoeffs [-2, 4, -1, -2, 1]).valueAt a = (a - 1) ^ 2 * (a ^ 2 - √2 ^ 2) := by
      rw [Real.sq_sqrt zero_le_two, valueAt, terms]
      simp only [List.foldr_cons, List.foldr_nil]
      push_cast
      ring
    rw [factored, mul_eq_zero, pow_eq_zero_iff two_ne_zero, sub_eq_zero, sub_eq_zero,
      sq_eq_sq_iff_eq_or_eq_neg]
  cases h : (ofCoeffs [-2, 4, -1, -2, 1]).realRoots with
  | error failure => rw [h] at found; cases found
  | ok es =>
    obtain ⟨sound, complete, distinct⟩ := realRoots_denote_each_root_once nonzero h
    refine ⟨es, rfl, fun a => ?_, distinct⟩
    constructor
    · rintro ⟨e, he, rfl⟩
      exact (root _).mp (sound e he).2
    · intro ha
      exact complete a ((root a).mpr ha)

end Poly

end Tutor
