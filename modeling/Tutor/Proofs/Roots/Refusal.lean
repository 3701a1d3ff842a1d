import Tutor.Proofs.Poly.Overflow
import Tutor.Proofs.Roots.Real

/-!
Which polynomials are refused for want of a closed form. Only rational roots are split off, so the search
stops at a divisor of a square-free part that has no rational root and degree three or more. It need not
be irreducible: without a factor of degree three or more, it is a product of different irreducible
polynomials of degree two, all of which have the multiplicity of the part.
-/

set_option autoImplicit false
set_option relaxedAutoImplicit false

open scoped Polynomial

namespace Tutor

/-! ### Polynomials without rational roots -/

def Rootless (f : ℚ[X]) : Prop := ∀ q : ℚ, ¬ f.IsRoot q

def HasHighFactor (f : ℚ[X]) : Prop := ∃ q, Irreducible q ∧ q ∣ f ∧ 3 ≤ q.natDegree

/-- Two different irreducible factors of degree two have the same multiplicity. -/
def HasQuadraticPair (f : ℚ[X]) : Prop :=
  ∃ q q', Irreducible q ∧ Irreducible q' ∧ q.natDegree = 2 ∧ q'.natDegree = 2 ∧ ¬ Associated q q' ∧
    q ∣ f ∧ q' ∣ f ∧ emultiplicity q f = emultiplicity q' f

variable {f g q q' : ℚ[X]}

theorem HasHighFactor.of_dvd (h : HasHighFactor g) (hgf : g ∣ f) : HasHighFactor f := by
  obtain ⟨q, hq, hqg, high⟩ := h
  exact ⟨q, hq, hqg.trans hgf, high⟩

theorem Rootless.mul (hf : Rootless f) (hg : Rootless g) : Rootless (f * g) := by
  intro a ha
  exact (Polynomial.root_mul.mp ha).elim (hf a) (hg a)

private theorem rootless_of_irreducible (hq : Irreducible q) (h : 2 ≤ q.natDegree) : Rootless q := by
  intro a
  exact hq.not_isRoot_of_natDegree_ne_one (by omega)

private theorem Rootless.two_le_natDegree (h : Rootless f) (hq : Irreducible q) (hqf : q ∣ f) :
    2 ≤ q.natDegree := by
  have positive := hq.natDegree_pos
  by_contra! low
  have one : q.degree = 1 :=
    (Polynomial.degree_eq_iff_natDegree_eq_of_pos Nat.one_pos).mpr (by omega)
  obtain ⟨a, ha⟩ := Polynomial.exists_root_of_degree_eq_one one
  exact h a (ha.dvd hqf)

private theorem exists_irreducible_dvd (h : 1 ≤ f.natDegree) : ∃ q, Irreducible q ∧ q ∣ f :=
  WfDvdMonoid.exists_irreducible_factor (Polynomial.not_isUnit_of_natDegree_pos f h)
    (Polynomial.ne_zero_of_natDegree_gt h)

/-- A polynomial of degree three or more without rational roots and without repeated factors has an
irreducible factor of this size or two different ones of degree two. -/
private theorem Rootless.highFactor_or_quadraticPair (h : Rootless f) (hf : Squarefree f)
    (degree : 3 ≤ f.natDegree) : HasHighFactor f ∨ HasQuadraticPair f := by
  refine or_iff_not_imp_left.mpr fun low => ?_
  have two {q : ℚ[X]} (hq : Irreducible q) (hqf : q ∣ f) : q.natDegree = 2 := by
    have atLeast := h.two_le_natDegree hq hqf
    have atMost : ¬ 3 ≤ q.natDegree := fun high => low ⟨q, hq, hqf, high⟩
    omega
  obtain ⟨q, hq, rest, hrest⟩ := exists_irreducible_dvd (f := f) (by omega)
  have hqf : q ∣ f := ⟨rest, hrest⟩
  have sum : f.natDegree = q.natDegree + rest.natDegree := by
    rw [hrest] at hf ⊢
    exact Polynomial.natDegree_mul hq.ne_zero (right_ne_zero_of_mul hf.ne_zero)
  have hq2 := two hq hqf
  obtain ⟨q', hq', hq'rest⟩ := exists_irreducible_dvd (f := rest) (by omega)
  have hq'f : q' ∣ f := hq'rest.trans ⟨q, by rw [hrest, mul_comm]⟩
  refine ⟨q, q', hq, hq', hq2, two hq' hq'f, fun same => ?_, hqf, hq'f, ?_⟩
  · have repeated : q * q ∣ f := hrest ▸ mul_dvd_mul_left q (same.dvd.trans hq'rest)
    exact hq.not_isUnit (hf q repeated)
  · rw [Poly.emultiplicity_of_squarefree hf hq hqf, Poly.emultiplicity_of_squarefree hf hq' hq'f]

/-! ### A single part -/

namespace Poly

variable {p : Poly} {roots : List RealRoot}

/-- The roots of a part are refused for the size of a coefficient, or because of a divisor without rational
roots, whose degree is named. -/
private theorem exists_rootless_of_distinctRoots {failure : Failure} (h : p.distinctRoots = .error failure) :
    (∃ n, failure = .coefficientTooLarge n) ∨
      ∃ g, g ∣ p.toPolynomial ∧ Rootless g ∧ 3 ≤ g.natDegree ∧ failure = .noClosedForm g.natDegree := by
  induction hn : p.bound using Nat.strongRecOn generalizing p with
  | ind n ih =>
    rw [distinctRoots] at h
    split_ifs at h with low
    rcases bind_eq_error.mp h with h | ⟨answer, hanswer, h⟩
    · exact .inl (exists_of_rationalRoot?_eq_error h)
    · cases answer with
      | none =>
        obtain rfl := Except.error.inj h
        have degree := (exists_highest (p := p) (by omega)).1
        refine .inr ⟨p.toPolynomial, dvd_rfl, not_isRoot_of_rationalRoot? hanswer, by omega, ?_⟩
        rw [degree, Nat.add_sub_cancel]
      | some r =>
        obtain ⟨q, hq, hsplit⟩ := exists_divExact?_linear (eval_rationalRoot? hanswer)
        rcases bind_eq_error.mp h with h | ⟨others, -, h⟩
        · rw [hq, Option.getD_some] at h
          have lower : q.bound < n := hn ▸ bound_divExact?_lt (by omega) (one_lt_bound_linear r) hq
          refine (ih q.bound lower h rfl).imp_right ?_
          rintro ⟨g, hg, found⟩
          exact ⟨g, hsplit ▸ hg.mul_left _, found⟩
        · cases h

private theorem natDegree_le_two_of_distinctRoots (hp : Squarefree p.toPolynomial)
    (h : p.distinctRoots = .ok roots) : ∀ g, g ∣ p.toPolynomial → Rootless g → g.natDegree ≤ 2 := by
  have lowDegree {p : Poly} (hp : Squarefree p.toPolynomial) (low : p.bound ≤ 3) :
      ∀ g, g ∣ p.toPolynomial → Rootless g → g.natDegree ≤ 2 := by
    intro g hg _
    have degree := bound_eq_natDegree_add_one hp.ne_zero
    have := Polynomial.natDegree_le_of_dvd hg hp.ne_zero
    omega
  refine distinctRoots_induction
    (motive := fun p _ => ∀ g, g ∣ p.toPolynomial → Rootless g → g.natDegree ≤ 2) ?quadratic ?low ?split hp h
  case quadratic => exact fun p three hp => lowDegree hp three.le
  case low => exact fun p two hp => lowDegree hp (two.trans (Nat.le_succ 2))
  case split =>
    intro p r q others _ hsplit _ _ rest g hg rootless
    -- the divisor lies in the quotient, since `x - r` would give it a root
    have apart : IsCoprime g (Polynomial.X - Polynomial.C r) := by
      refine ((Polynomial.irreducible_X_sub_C r).coprime_iff_not_dvd.mpr fun root => ?_).symm
      exact rootless r (Polynomial.dvd_iff_isRoot.mp root)
    rw [hsplit] at hg
    exact rest g (apart.dvd_of_dvd_mul_left hg) rootless

/-! ### All parts -/

private theorem exists_of_flatMapM_eq_error {α β : Type} {f : α → Except Failure (List β)} {as : List α}
    {failure : Failure} (h : as.flatMapM f = .error failure) : ∃ a ∈ as, f a = .error failure := by
  induction as with
  | nil => cases h
  | cons a as ih =>
    rw [List.flatMapM_cons] at h
    rcases bind_eq_error.mp h with h | ⟨first, -, h⟩
    · exact ⟨a, List.mem_cons_self, h⟩
    · rcases bind_eq_error.mp h with h | ⟨others, -, h⟩
      · obtain ⟨a', ha', failed⟩ := ih h
        exact ⟨a', List.mem_cons_of_mem a ha', failed⟩
      · cases h

private theorem exists_of_flatMapM_eq_ok {α β : Type} {f : α → Except Failure (List β)} {as : List α}
    {bs : List β} (h : as.flatMapM f = .ok bs) : ∀ a ∈ as, ∃ found, f a = .ok found := by
  induction as generalizing bs with
  | nil => exact List.forall_mem_nil _
  | cons a as ih =>
    obtain ⟨first, others, hfirst, hothers, -⟩ := flatMapM_cons_eq_ok h
    exact List.forall_mem_cons.mpr ⟨⟨first, hfirst⟩, ih hothers⟩

private theorem gatheredRoots_eq_error {failure : Failure} (h : p.realRoots = .error failure) :
    p.gatheredRoots = .error failure := by
  rcases bind_eq_error.mp h with h | ⟨_, -, h⟩
  · exact h
  · cases h

private theorem toPolynomial_ne_zero_of_mem_squareFree {f : Poly × Nat} (hf : f ∈ p.squareFree) :
    p.toPolynomial ≠ 0 := by
  intro hzero
  rw [squareFree, if_pos ((toPolynomial_eq_zero_iff.mp hzero).trans_le (Nat.zero_le 1))] at hf
  cases hf

/-- A polynomial that is not refused for the size of a coefficient has a factor of one of the two kinds, and
the degree that is named is that of a divisor without rational roots. -/
private theorem exists_factors_of_realRoots {failure : Failure} (h : p.realRoots = .error failure) :
    (∃ n, failure = .coefficientTooLarge n) ∨
      (∃ g, g ∣ p.toPolynomial ∧ Rootless g ∧ 3 ≤ g.natDegree ∧ failure = .noClosedForm g.natDegree) ∧
        (HasHighFactor p.toPolynomial ∨ HasQuadraticPair p.toPolynomial) := by
  obtain ⟨f, hf, refused⟩ := exists_of_flatMapM_eq_error (gatheredRoots_eq_error h)
  have hp := toPolynomial_ne_zero_of_mem_squareFree hf
  have parts := squareFreeParts_squareFree hp
  refine (exists_rootless_of_distinctRoots refused).imp_right ?_
  rintro ⟨g, hg, rootless, degree, named⟩
  have divides := hg.trans (parts.dvd hf)
  refine ⟨⟨g, divides, rootless, degree, named⟩, ?_⟩
  refine (rootless.highFactor_or_quadraticPair ((parts.squarefree f hf).squarefree_of_dvd hg) degree).imp
    (fun high => high.of_dvd divides) ?_
  rintro ⟨q, q', hq, hq', hq2, hq'2, different, hqg, hq'g, -⟩
  refine ⟨q, q', hq, hq', hq2, hq'2, different, hqg.trans divides, hq'g.trans divides, ?_⟩
  rw [parts.emultiplicity_eq hp hf hq (hqg.trans hg), parts.emultiplicity_eq hp hf hq' (hq'g.trans hg)]

private theorem realRoots_ne_ok_of_factors (hp : p ≠ 0)
    (h : HasHighFactor p.toPolynomial ∨ HasQuadraticPair p.toPolynomial) (es : List Expr) :
    p.realRoots ≠ .ok es := by
  intro found
  have hp' : p.toPolynomial ≠ 0 := mt eq_zero_iff.mpr hp
  have parts := squareFreeParts_squareFree hp'
  obtain ⟨_, gathered, -⟩ := bind_eq_ok.mp found
  have low {f : Poly × Nat} (hf : f ∈ p.squareFree) :
      ∀ g, g ∣ f.1.toPolynomial → Rootless g → g.natDegree ≤ 2 := by
    obtain ⟨roots, hroots⟩ := exists_of_flatMapM_eq_ok gathered f hf
    exact natDegree_le_two_of_distinctRoots (parts.squarefree f hf) hroots
  rcases h with ⟨q, hq, hqp, high⟩ | ⟨q, q', hq, hq', hq2, hq'2, different, hqp, hq'p, same⟩
  · obtain ⟨f, hf, hqf⟩ := parts.exists_dvd hp' hq hqp
    have := low hf q hqf (rootless_of_irreducible hq (by omega))
    omega
  · obtain ⟨f, hf, hqf⟩ := parts.exists_dvd hp' hq hqp
    obtain ⟨f', hf', hq'f'⟩ := parts.exists_dvd hp' hq' hq'p
    rw [parts.emultiplicity_eq hp' hf hq hqf, parts.emultiplicity_eq hp' hf' hq' hq'f',
      Nat.cast_inj] at same
    -- the parts have different multiplicities, so both factors belong to one part, and so does their product
    have distinct : (p.squareFree.map Prod.snd).Nodup :=
      List.pairwise_map.mpr (parts.ascending.imp Nat.ne_of_lt)
    obtain rfl := List.inj_on_of_nodup_map distinct hf hf' same
    have apart : IsCoprime q q' := hq.coprime_iff_not_dvd.mpr fun divides =>
      different (hq.associated_of_dvd hq' divides)
    have product : (q * q').natDegree = 4 := by
      rw [Polynomial.natDegree_mul hq.ne_zero hq'.ne_zero, hq2, hq'2]
    have := low hf (q * q') (apart.mul_dvd hqf hq'f')
      ((rootless_of_irreducible hq hq2.ge).mul (rootless_of_irreducible hq' hq'2.ge))
    omega

/-- What it means that a polynomial is refused for want of a closed form. The degree that is named is that
of a divisor without rational roots, which need not be irreducible: there is an irreducible factor of
degree three or more, or two different ones of degree two have the same multiplicity. Where there is such
a factor or such a pair, and no coefficient is too large, the polynomial is refused. -/
theorem refused_for_high_factor_or_quadratic_pair (p : Poly) :
    (∀ d, p.realRoots = .error (.noClosedForm d) →
      (∃ g, g ∣ p.toPolynomial ∧ Rootless g ∧ g.natDegree = d ∧ 3 ≤ d) ∧
        (HasHighFactor p.toPolynomial ∨ HasQuadraticPair p.toPolynomial)) ∧
    (p ≠ 0 → HasHighFactor p.toPolynomial ∨ HasQuadraticPair p.toPolynomial →
      (∀ n, p.realRoots ≠ .error (.coefficientTooLarge n)) →
        ∃ d, p.realRoots = .error (.noClosedForm d)) := by
  constructor
  · intro d h
    rcases exists_factors_of_realRoots h with ⟨n, other⟩ | ⟨⟨g, hg, rootless, degree, named⟩, factors⟩
    · cases other
    · obtain rfl := Failure.noClosedForm.inj named
      exact ⟨⟨g, hg, rootless, rfl, degree⟩, factors⟩
  · intro hp factors small
    cases h : p.realRoots with
    | ok es => exact absurd h (realRoots_ne_ok_of_factors hp factors es)
    | error failure =>
      rcases exists_factors_of_realRoots h with ⟨n, rfl⟩ | ⟨⟨g, -, -, -, rfl⟩, -⟩
      · exact absurd h (small n)
      · exact ⟨g.natDegree, rfl⟩

/-- The polynomial `(x² - 2) (x² - 3)` is refused as an irreducible one of degree four. -/
theorem product_of_quadratics_refused :
    let p := ofCoeffs [-2, 0, 1] * ofCoeffs [-3, 0, 1]
    p.realRoots = .error (.noClosedForm 4) ∧ ¬ HasHighFactor p.toPolynomial := by
  intro p
  refine ⟨by decide +kernel, ?_⟩
  rintro ⟨q, hq, hqp, high⟩
  have low {f : Poly} (hf : f.bound = 3) (hqf : q ∣ f.toPolynomial) : False := by
    obtain ⟨degree, -, nonzero⟩ := exists_highest (p := f) (by omega)
    have := Polynomial.natDegree_le_of_dvd hqf nonzero
    omega
  have fits : (ofCoeffs [-2, 0, 1]).productFits (ofCoeffs [-3, 0, 1]) = true := by decide +kernel
  rw [toPolynomial_mul_of_fits fits, hq.prime.dvd_mul] at hqp
  rcases hqp with hqf | hqf
  · exact low (by decide +kernel) hqf
  · exact low (by decide +kernel) hqf

end Poly

end Tutor
