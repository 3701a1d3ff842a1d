import Mathlib.FieldTheory.Separable
import Mathlib.RingTheory.Polynomial.Radical
import Tutor.Proofs.Poly.Division

/-!
The square-free decomposition of a polynomial: monic factors without repeated factors, no two with a
factor in common, whose powers give the polynomial back. The loop keeps two facts, that the one
polynomial has no repeated factor and that every irreducible factor of the other divides it. So both
divisions of a round are exact, and the loop runs until nothing is left. An irreducible factor has the
multiplicity of the one part that it divides.
-/

set_option autoImplicit false
set_option relaxedAutoImplicit false

open scoped Polynomial

namespace Tutor.Poly

theorem isOne_iff {p : Poly} : p.isOne = true ↔ p.toPolynomial = 1 := by
  have terms_one : (1 : Poly).terms = [(0, 1)] := rfl
  rw [isOne, beq_iff_eq, ← terms_one, ← toPolynomial_one, toPolynomial_injective.eq_iff]
  constructor
  · intro h
    obtain ⟨terms, canonical, words⟩ := p
    subst h
    rfl
  · intro h
    rw [h]

/-! ### Repeated factors and the derivative -/

/-- The derivative lowers the multiplicity of an irreducible factor. -/
private theorem pow_not_dvd_derivative {q h : ℚ[X]} (hq : Irreducible q) (hh : ¬ q ∣ h) (e : Nat) :
    ¬ q ^ (e + 1) ∣ Polynomial.derivative (q ^ (e + 1) * h) := by
  intro hdvd
  have expanded : Polynomial.derivative (q ^ (e + 1) * h) =
      q ^ e * (Polynomial.C (e + 1 : ℚ) * (Polynomial.derivative q * h)) +
        q ^ (e + 1) * Polynomial.derivative h := by
    rw [Polynomial.derivative_mul, Polynomial.derivative_pow_succ]
    ring
  rw [expanded, dvd_add_left (Dvd.intro _ rfl), pow_succ,
    mul_dvd_mul_iff_left (pow_ne_zero e hq.ne_zero)] at hdvd
  have unit : IsUnit (Polynomial.C (e + 1 : ℚ)) :=
    Polynomial.isUnit_C.mpr (isUnit_iff_ne_zero.mpr (by positivity))
  rw [unit.dvd_mul_left] at hdvd
  exact hh (hq.separable.dvd_of_dvd_mul_left hdvd)

private theorem irreducible_dvd_quotient {m y g q : ℚ[X]} (hm : m ≠ 0) (h : m = y * g)
    (hg : g ∣ Polynomial.derivative m) (hq : Irreducible q) (hqm : q ∣ m) : q ∣ y := by
  obtain ⟨e, rest, split, hrest⟩ : ∃ e rest, m = q ^ e * rest ∧ ¬ q ∣ rest :=
    ⟨_, (FiniteMultiplicity.of_prime_left hq.prime hm).exists_eq_pow_mul_and_not_dvd⟩
  by_contra hy
  cases e with
  | zero =>
    rw [split, pow_zero, one_mul] at hqm
    exact hrest hqm
  | succ e =>
    have coprime : IsCoprime (q ^ (e + 1)) y := (hq.coprime_iff_not_dvd.mpr hy).pow_left
    have inProduct : q ^ (e + 1) ∣ y * g := by
      rw [← h, split]
      exact Dvd.intro _ rfl
    have inDerivative := (coprime.dvd_of_dvd_mul_left inProduct).trans hg
    rw [split] at inDerivative
    exact pow_not_dvd_derivative hq hrest e inDerivative

private theorem squarefree_quotient {m y g : ℚ[X]} (hm : m ≠ 0) (h : m = y * g)
    (hg : ∀ f, f ∣ m → f ∣ Polynomial.derivative m → f ∣ g) : Squarefree y := by
  have repeated := hg _ (EuclideanDomain.divRadical_dvd_self m) (divRadical_dvd_derivative m)
  have hradical : y ∣ UniqueFactorizationMonoid.radical m := by
    obtain ⟨c, hc⟩ := repeated
    refine ⟨c, mul_right_cancel₀ (EuclideanDomain.divRadical_ne_zero hm) ?_⟩
    rw [EuclideanDomain.radical_mul_divRadical, mul_assoc, mul_comm c, ← hc, ← h]
  exact UniqueFactorizationMonoid.squarefree_radical.squarefree_of_dvd hradical

/-! ### The loop -/

/-- What holds at the start of every round: `y` has no repeated factor, and every irreducible factor
of `g` divides it. -/
structure Round (y g : Poly) : Prop where
  monicLeft : y.toPolynomial.Monic
  monicRight : g.toPolynomial.Monic
  squarefree : Squarefree y.toPolynomial
  covers : ∀ q, Irreducible q → q ∣ g.toPolynomial → q ∣ y.toPolynomial

/-- What the parts found from multiplicity `i` on have to do with the polynomials of the round. -/
structure PartsFrom (y g : Poly) (i : Nat) (parts : List (Poly × Nat)) : Prop where
  monic : ∀ f ∈ parts, f.1.toPolynomial.Monic
  proper : ∀ f ∈ parts, f.1.toPolynomial ≠ 1
  divides : ∀ f ∈ parts, f.1.toPolynomial ∣ y.toPolynomial
  first : ∀ f ∈ parts, i ≤ f.2
  ascending : parts.Pairwise fun f f' => f.2 < f'.2
  coprime : parts.Pairwise fun f f' => IsCoprime f.1.toPolynomial f'.1.toPolynomial
  product : (parts.map fun f => f.1.toPolynomial ^ f.2).prod =
    y.toPolynomial ^ i * g.toPolynomial

namespace Round

variable {y g : Poly}

theorem monic_gcd (h : Round y g) : (gcd y g).toPolynomial.Monic :=
  Poly.monic_gcd (.inl h.monicLeft.ne_zero)

theorem step (h : Round y g) : ∃ part next : Poly,
    y.divExact? (gcd y g) = some part ∧ g.divExact? (gcd y g) = some next ∧
      y.toPolynomial = part.toPolynomial * (gcd y g).toPolynomial ∧
      g.toPolynomial = next.toPolynomial * (gcd y g).toPolynomial ∧
      IsCoprime part.toPolynomial (gcd y g).toPolynomial ∧ part.toPolynomial.Monic ∧
      Round (gcd y g) next := by
  have hz : (gcd y g).bound ≠ 0 := mt toPolynomial_eq_zero_iff.mpr h.monic_gcd.ne_zero
  obtain ⟨part, hpart⟩ := exists_divExact? hz (gcd_dvd_left y g)
  obtain ⟨next, hnext⟩ := exists_divExact? hz (gcd_dvd_right y g)
  have hy := (divExact?_eq_some_iff hz).mp hpart
  have hg := (divExact?_eq_some_iff hz).mp hnext
  have free := h.squarefree
  rw [hy, squarefree_mul_iff] at free
  refine ⟨part, next, hpart, hnext, hy, hg, free.1.isCoprime, ?_, ?_⟩
  · exact h.monic_gcd.of_mul_monic_right (hy ▸ h.monicLeft)
  · refine ⟨h.monic_gcd, h.monic_gcd.of_mul_monic_right (hg ▸ h.monicRight), free.2.2, ?_⟩
    intro q hq hqnext
    have hqg : q ∣ g.toPolynomial := hqnext.trans (hg ▸ Dvd.intro _ rfl)
    exact (dvd_gcd_iff y g q).mpr ⟨h.covers q hq hqg, hqg⟩

private theorem right_eq_one (h : Round y g) (hy : y.toPolynomial = 1) : g.toPolynomial = 1 := by
  by_contra hg
  have hunit : ¬ IsUnit g.toPolynomial := mt h.monicRight.isUnit_iff.mp hg
  obtain ⟨q, hq, hqg⟩ := WfDvdMonoid.exists_irreducible_factor hunit h.monicRight.ne_zero
  have hqy := h.covers q hq hqg
  rw [hy] at hqy
  exact hq.not_isUnit (isUnit_of_dvd_one hqy)

end Round

private theorem PartsFrom.extend {y g z next part : Poly} {i : Nat} {parts : List (Poly × Nat)}
    (h : PartsFrom z next (i + 1) parts) (hmonic : part.toPolynomial.Monic)
    (hcoprime : IsCoprime part.toPolynomial z.toPolynomial)
    (hy : y.toPolynomial = part.toPolynomial * z.toPolynomial)
    (hg : g.toPolynomial = next.toPolynomial * z.toPolynomial) :
    PartsFrom y g i (if part.isOne then parts else (part, i) :: parts) := by
  have divides : ∀ f ∈ parts, f.1.toPolynomial ∣ y.toPolynomial := by
    intro f hf
    rw [hy]
    exact (h.divides f hf).mul_left _
  have product : part.toPolynomial ^ i * (parts.map fun f => f.1.toPolynomial ^ f.2).prod =
      y.toPolynomial ^ i * g.toPolynomial := by
    rw [h.product, hy, hg]
    ring
  by_cases hone : part.isOne = true
  · rw [if_pos hone]
    rw [isOne_iff.mp hone, one_pow, one_mul] at product
    refine ⟨h.monic, h.proper, divides, ?_, h.ascending, h.coprime, product⟩
    intro f hf
    exact (Nat.le_succ i).trans (h.first f hf)
  · rw [if_neg hone]
    refine ⟨?_, ?_, ?_, ?_, ?_, ?_, ?_⟩
    · exact List.forall_mem_cons.mpr ⟨hmonic, h.monic⟩
    · exact List.forall_mem_cons.mpr ⟨mt isOne_iff.mpr hone, h.proper⟩
    · exact List.forall_mem_cons.mpr ⟨hy ▸ Dvd.intro _ rfl, divides⟩
    · exact List.forall_mem_cons.mpr ⟨le_rfl, fun f hf => (Nat.le_succ i).trans (h.first f hf)⟩
    · exact .cons h.first h.ascending
    · exact .cons (fun f hf => hcoprime.of_isCoprime_of_dvd_right (h.divides f hf)) h.coprime
    · rw [List.map_cons, List.prod_cons, product]

private theorem partsFrom_nil {y g : Poly} (h : Round y g) (i : Nat) (hy : y.toPolynomial = 1) :
    PartsFrom y g i [] := by
  refine ⟨by simp, by simp, by simp, by simp, .nil, .nil, ?_⟩
  rw [List.map_nil, List.prod_nil, hy, h.right_eq_one hy, one_pow, one_mul]

/-- A run of the loop: rounds in which both divisions are exact, until the first polynomial is one. No
bound on the number of rounds enters. -/
inductive Rounds : Poly → Poly → Nat → List (Poly × Nat) → Prop where
  | done {y g : Poly} {i : Nat} (one : y.isOne = true) : Rounds y g i []
  | round {y g part next : Poly} {i : Nat} {parts : List (Poly × Nat)}
      (running : ¬ (y.isOne || y.isZero) = true)
      (left : y.divExact? (gcd y g) = some part) (right : g.divExact? (gcd y g) = some next)
      (rest : Rounds (gcd y g) next (i + 1) parts) :
      Rounds y g i (if part.isOne then parts else (part, i) :: parts)

private theorem rounds_squareFreeParts {y g : Poly} (h : Round y g) (i fuel : Nat)
    (enough : y.toPolynomial = 1 ∨ g.toPolynomial.natDegree < fuel) :
    Rounds y g i (squareFreeParts y g i fuel) := by
  induction fuel generalizing y g i with
  | zero => exact .done (isOne_iff.mpr (enough.resolve_right (Nat.not_lt_zero _)))
  | succ fuel ih =>
    by_cases hy : y.toPolynomial = 1
    · rw [squareFreeParts, if_pos (by rw [isOne_iff.mpr hy, Bool.true_or])]
      exact .done (isOne_iff.mpr hy)
    · have running : ¬ (y.isOne || y.isZero) = true := by
        rw [Bool.or_eq_true, isOne_iff, isZero_iff, not_or]
        exact ⟨hy, h.monicLeft.ne_zero⟩
      obtain ⟨part, next, hpart, hnext, -, hg', -, -, hround⟩ := h.step
      -- each round lowers the degree of `g`, unless nothing is left to divide by
      have enough' : (gcd y g).toPolynomial = 1 ∨ next.toPolynomial.natDegree < fuel := by
        refine or_iff_not_imp_left.mpr fun hz => ?_
        have degree := hround.monicRight.natDegree_mul h.monic_gcd
        have positive := Nat.pos_of_ne_zero (mt h.monic_gcd.natDegree_eq_zero.mp hz)
        rw [← hg'] at degree
        have := enough.resolve_left hy
        omega
      rw [squareFreeParts, if_neg running]
      simp only [hpart, hnext, Option.getD_some]
      exact .round running hpart hnext (ih hround (i + 1) enough')

private theorem Rounds.partsFrom {y g : Poly} {i : Nat} {parts : List (Poly × Nat)} (h : Rounds y g i parts)
    (start : Round y g) : PartsFrom y g i parts := by
  induction h with
  | done one => exact partsFrom_nil start _ (isOne_iff.mp one)
  | round running left right rest ih =>
    obtain ⟨part, next, hpart, hnext, hy, hg, hcoprime, hmonic, hround⟩ := start.step
    obtain rfl := Option.some.inj (hpart.symm.trans left)
    obtain rfl := Option.some.inj (hnext.symm.trans right)
    exact (ih hround).extend hmonic hcoprime hy hg

private theorem exists_first_round {m : Poly} (hm : m.toPolynomial.Monic) : ∃ y : Poly,
    m.divExact? (gcd m m.derivative) = some y ∧
      m.toPolynomial = y.toPolynomial * (gcd m m.derivative).toPolynomial ∧
      Round y (gcd m m.derivative) := by
  have monic := monic_gcd (a := m) (b := m.derivative) (.inl hm.ne_zero)
  have hz : (gcd m m.derivative).bound ≠ 0 := mt toPolynomial_eq_zero_iff.mpr monic.ne_zero
  obtain ⟨y, hy⟩ := exists_divExact? hz (gcd_dvd_left m m.derivative)
  have product := (divExact?_eq_some_iff hz).mp hy
  refine ⟨y, hy, product, monic.of_mul_monic_right (product ▸ hm), monic, ?_, ?_⟩
  · refine squarefree_quotient hm.ne_zero product fun f hf hf' => ?_
    rw [← toPolynomial_derivative] at hf'
    exact (dvd_gcd_iff m m.derivative f).mpr ⟨hf, hf'⟩
  · intro q hq hqg
    have inDerivative := gcd_dvd_right m m.derivative
    rw [toPolynomial_derivative] at inDerivative
    exact irreducible_dvd_quotient hm.ne_zero product inDerivative hq
      (hqg.trans (gcd_dvd_left m m.derivative))

/-- What a square-free decomposition is: monic factors without repeated factors, none of them one and
no two with a factor in common, multiplicities from one on in ascending order, and the product of the
powers is the polynomial up to its leading coefficient. -/
structure SquareFreeParts (p : Poly) (parts : List (Poly × Nat)) : Prop where
  monic : ∀ f ∈ parts, f.1.toPolynomial.Monic
  proper : ∀ f ∈ parts, f.1.toPolynomial ≠ 1
  squarefree : ∀ f ∈ parts, Squarefree f.1.toPolynomial
  positive : ∀ f ∈ parts, 1 ≤ f.2
  ascending : parts.Pairwise fun f f' => f.2 < f'.2
  coprime : parts.Pairwise fun f f' => IsCoprime f.1.toPolynomial f'.1.toPolynomial
  product : Polynomial.C p.toPolynomial.leadingCoeff *
    (parts.map fun f => f.1.toPolynomial ^ f.2).prod = p.toPolynomial

private theorem exists_rounds_squareFree {p : Poly} (hp : 1 ≤ p.toPolynomial.natDegree) : ∃ y : Poly,
    p.monic.divExact? (gcd p.monic p.monic.derivative) = some y ∧
      Rounds y (gcd p.monic p.monic.derivative) 1 p.squareFree := by
  have hp0 : p.toPolynomial ≠ 0 := Polynomial.ne_zero_of_natDegree_gt hp
  have degree := bound_eq_natDegree_add_one hp0
  have hm := monic_toPolynomial_monic hp0
  obtain ⟨y, hy, -, round⟩ := exists_first_round hm
  have enough : (gcd p.monic p.monic.derivative).toPolynomial.natDegree < p.bound := by
    have whole := Polynomial.natDegree_le_of_dvd (gcd_dvd_left p.monic p.monic.derivative) hm.ne_zero
    rw [Polynomial.natDegree_eq_of_degree_eq
      (Polynomial.degree_eq_degree_of_associated (associated_monic p))] at whole
    omega
  refine ⟨y, hy, ?_⟩
  rw [squareFree, if_neg (by omega)]
  simp only [hy, Option.getD_some]
  exact rounds_squareFreeParts round 1 p.bound (.inr enough)

theorem squareFreeParts_squareFree {p : Poly} (hp : p.toPolynomial ≠ 0) :
    SquareFreeParts p p.squareFree := by
  by_cases constant : p.toPolynomial.natDegree = 0
  · obtain ⟨c, hc⟩ := Polynomial.natDegree_eq_zero.mp constant
    rw [squareFree, if_pos (by rw [bound_eq_natDegree_add_one hp, constant])]
    refine ⟨by simp, by simp, by simp, by simp, .nil, .nil, ?_⟩
    rw [List.map_nil, List.prod_nil, mul_one, ← hc, Polynomial.leadingCoeff_C]
  · obtain ⟨y, hy, rounds⟩ := exists_rounds_squareFree (Nat.one_le_iff_ne_zero.mpr constant)
    obtain ⟨y', hy', product, round⟩ := exists_first_round (monic_toPolynomial_monic hp)
    obtain rfl := Option.some.inj (hy.symm.trans hy')
    have parts := rounds.partsFrom round
    refine ⟨parts.monic, parts.proper, ?_, parts.first, parts.ascending, parts.coprime, ?_⟩
    · intro f hf
      exact round.squarefree.squarefree_of_dvd (parts.divides f hf)
    · rw [parts.product, pow_one, ← product, toPolynomial_monic, mul_comm, mul_assoc, ← map_mul,
        inv_mul_cancel₀ (Polynomial.leadingCoeff_ne_zero.mpr hp), map_one, mul_one]

/-- The decomposition of a polynomial that is not constant. The loop runs until nothing is left and every
division in it is exact. What it finds are monic factors of positive degree without repeated factors, no
two with a factor in common, with ascending multiplicities, and the product of the powers is the
polynomial up to its leading coefficient. -/
theorem squareFree_decomposes {p : Poly} (hp : 1 ≤ p.toPolynomial.natDegree) :
    (∃ y : Poly, p.monic.divExact? (gcd p.monic p.monic.derivative) = some y ∧
      Rounds y (gcd p.monic p.monic.derivative) 1 p.squareFree) ∧
    (∀ f ∈ p.squareFree, 1 ≤ f.2 ∧ f.1.toPolynomial.Monic ∧ 1 ≤ f.1.toPolynomial.natDegree ∧
      Squarefree f.1.toPolynomial) ∧
    (p.squareFree.Pairwise fun f f' => f.2 < f'.2) ∧
    (p.squareFree.Pairwise fun f f' => IsCoprime f.1.toPolynomial f'.1.toPolynomial) ∧
    Polynomial.C p.leading * (p.squareFree.map fun f => f.1.toPolynomial ^ f.2).prod =
      p.toPolynomial := by
  have parts := squareFreeParts_squareFree (Polynomial.ne_zero_of_natDegree_gt hp)
  refine ⟨exists_rounds_squareFree hp, ?_, parts.ascending, parts.coprime, ?_⟩
  · intro f hf
    have monic := parts.monic f hf
    have degree := mt monic.natDegree_eq_zero.mp (parts.proper f hf)
    exact ⟨parts.positive f hf, monic, Nat.one_le_iff_ne_zero.mpr degree, parts.squarefree f hf⟩
  · rw [leading_eq_leadingCoeff]
    exact parts.product

/-- In `3 (x - 2) (x² + 1)³` no factor has multiplicity two, and the second round finds nothing. -/
theorem squareFree_decomposes_gap :
    let p := ofCoeffs [-6, 3, -18, 9, -18, 9, -6, 3]
    1 ≤ p.toPolynomial.natDegree ∧ p.squareFree = [(linear 2, 1), (ofCoeffs [1, 0, 1], 3)] ∧
      Squarefree (ofCoeffs [1, 0, 1]).toPolynomial ∧
      Polynomial.C 3 * ((linear 2).toPolynomial ^ 1 * (ofCoeffs [1, 0, 1]).toPolynomial ^ 3) =
        p.toPolynomial := by
  intro p
  have bound : p.bound = 8 := by decide +kernel
  have leading : p.leading = 3 := by decide +kernel
  have found : p.squareFree = [(linear 2, 1), (ofCoeffs [1, 0, 1], 3)] := by decide +kernel
  have degree : 1 ≤ p.toPolynomial.natDegree := by
    have := (exists_highest (p := p) (by omega)).1
    omega
  obtain ⟨-, factors, -, -, product⟩ := squareFree_decomposes degree
  rw [found, leading, List.map_cons, List.map_singleton, List.prod_cons, List.prod_singleton] at product
  rw [found] at factors
  have quadratic := factors (ofCoeffs [1, 0, 1], 3) (List.mem_cons_of_mem _ List.mem_cons_self)
  exact ⟨degree, found, quadratic.2.2.2, product⟩

/-! ### Multiplicities -/

theorem isCoprime_prod {f : ℚ[X]} {gs : List ℚ[X]} (h : ∀ g ∈ gs, IsCoprime f g) :
    IsCoprime f gs.prod :=
  List.prod_induction (IsCoprime f) (fun _ _ => IsCoprime.mul_right) isCoprime_one_right h

private theorem isCoprime_powers {f : ℚ[X]} {parts : List (Poly × Nat)}
    (h : ∀ g ∈ parts, IsCoprime f g.1.toPolynomial) :
    IsCoprime f (parts.map fun g => g.1.toPolynomial ^ g.2).prod := by
  refine isCoprime_prod fun a ha => ?_
  obtain ⟨g, hg, rfl⟩ := List.mem_map.mp ha
  exact (h g hg).pow_right

private theorem not_dvd_of_isCoprime {f g q : ℚ[X]} (h : IsCoprime f g) (hq : Irreducible q) (hf : q ∣ f) :
    ¬ q ∣ g := by
  intro hg
  exact hq.not_isUnit (h.isUnit_of_dvd' hf hg)

theorem not_isRoot_of_isCoprime {f g : ℚ[X]} {q : ℚ} (h : IsCoprime f g) (hq : f.IsRoot q) :
    ¬ g.IsRoot q := by
  rw [← Polynomial.dvd_iff_isRoot] at hq ⊢
  exact not_dvd_of_isCoprime h (Polynomial.irreducible_X_sub_C q) hq

theorem emultiplicity_of_squarefree {f q : ℚ[X]} (hf : Squarefree f) (hq : Irreducible q)
    (h : q ∣ f) : emultiplicity q f = 1 := by
  have atMost := ((squarefree_iff_emultiplicity_le_one f).mp hf q).resolve_right hq.not_isUnit
  have positive : 0 < emultiplicity q f := dvd_iff_emultiplicity_pos.mpr h
  exact le_antisymm atMost (Order.one_le_iff_pos.mpr positive)

private theorem emultiplicity_prod_pow {parts : List (Poly × Nat)} {q : ℚ[X]} {f : Poly × Nat}
    (hfree : ∀ g ∈ parts, Squarefree g.1.toPolynomial)
    (hcoprime : parts.Pairwise fun g g' => IsCoprime g.1.toPolynomial g'.1.toPolynomial)
    (hf : f ∈ parts) (hq : Irreducible q) (h : q ∣ f.1.toPolynomial) :
    emultiplicity q (parts.map fun g => g.1.toPolynomial ^ g.2).prod = f.2 := by
  induction parts with
  | nil => cases hf
  | cons g parts ih =>
    obtain ⟨hfree₁, hfree₂⟩ := List.forall_mem_cons.mp hfree
    obtain ⟨hcoprime₁, hcoprime₂⟩ := List.pairwise_cons.mp hcoprime
    rw [List.map_cons, List.prod_cons, emultiplicity_mul hq.prime, emultiplicity_pow hq.prime]
    rcases List.mem_cons.mp hf with rfl | hf
    · have others := not_dvd_of_isCoprime (isCoprime_powers hcoprime₁) hq h
      rw [emultiplicity_of_squarefree hfree₁ hq h, mul_one, emultiplicity_eq_zero.mpr others, add_zero]
    · have apart := not_dvd_of_isCoprime (hcoprime₁ f hf).symm hq h
      rw [emultiplicity_eq_zero.mpr apart, mul_zero, zero_add, ih hfree₂ hcoprime₂ hf]

namespace SquareFreeParts

variable {p : Poly} {parts : List (Poly × Nat)} {f : Poly × Nat} {q : ℚ[X]}

private theorem isUnit_leading (hp : p.toPolynomial ≠ 0) :
    IsUnit (Polynomial.C p.toPolynomial.leadingCoeff) :=
  Polynomial.isUnit_C.mpr (isUnit_iff_ne_zero.mpr (Polynomial.leadingCoeff_ne_zero.mpr hp))

theorem dvd (h : SquareFreeParts p parts) (hf : f ∈ parts) : f.1.toPolynomial ∣ p.toPolynomial := by
  have power : f.1.toPolynomial ∣ f.1.toPolynomial ^ f.2 :=
    dvd_pow_self _ (Nat.one_le_iff_ne_zero.mp (h.positive f hf))
  have listed : f.1.toPolynomial ^ f.2 ∣ (parts.map fun f => f.1.toPolynomial ^ f.2).prod :=
    List.dvd_prod (List.mem_map_of_mem hf)
  rw [← h.product]
  exact (power.trans listed).mul_left _

theorem exists_dvd (h : SquareFreeParts p parts) (hp : p.toPolynomial ≠ 0) (hq : Irreducible q)
    (hqp : q ∣ p.toPolynomial) : ∃ f ∈ parts, q ∣ f.1.toPolynomial := by
  rw [← h.product, (isUnit_leading hp).dvd_mul_left, hq.prime.dvd_prod_iff] at hqp
  obtain ⟨g, hg, hqg⟩ := hqp
  obtain ⟨f, hf, rfl⟩ := List.mem_map.mp hg
  exact ⟨f, hf, hq.prime.dvd_of_dvd_pow hqg⟩

theorem emultiplicity_eq (h : SquareFreeParts p parts) (hp : p.toPolynomial ≠ 0) (hf : f ∈ parts)
    (hq : Irreducible q) (hqf : q ∣ f.1.toPolynomial) : emultiplicity q p.toPolynomial = f.2 := by
  rw [← h.product, emultiplicity_mul hq.prime,
    emultiplicity_of_isUnit_right hq.not_isUnit (isUnit_leading hp), zero_add,
    emultiplicity_prod_pow h.squarefree h.coprime hf hq hqf]

theorem rootMultiplicity_eq {a : ℚ} (h : SquareFreeParts p parts) (hp : p.toPolynomial ≠ 0)
    (hf : f ∈ parts) (ha : f.1.toPolynomial.IsRoot a) : p.toPolynomial.rootMultiplicity a = f.2 := by
  have factor := h.emultiplicity_eq hp hf (Polynomial.irreducible_X_sub_C a)
    (Polynomial.dvd_iff_isRoot.mpr ha)
  rw [Polynomial.rootMultiplicity_eq_multiplicity, if_neg hp]
  exact multiplicity_eq_of_emultiplicity_eq_some factor

end SquareFreeParts

end Tutor.Poly
