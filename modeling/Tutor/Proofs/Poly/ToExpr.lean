import Tutor.Proofs.RationalFunction.Polynomial

/-!
Polynomials written as expressions and read back. Every term is read as its monomial, and a sum of terms as
the polynomial of the sum so far plus the next monomial; so a polynomial is read back from its terms. While
the powers of the variable are worked out, the last square, which is not used, wraps around if an exponent has
64 bits.
-/

set_option autoImplicit false
set_option relaxedAutoImplicit false

namespace Tutor.Poly

variable {a b e : Expr} {p q r : Poly} {t : Term} {ts : List Term} {v : String} {n : Nat}

/-! ### Terms -/

private theorem power_x (hn : n < UInt64.size) : x.power n = monomial n 1 := by
  apply toPolynomial_injective
  rw [toPolynomial_power (by rwa [toPolynomial_x, Polynomial.natDegree_X, Nat.mul_one]),
    toPolynomial_monomial hn, toPolynomial_x, Polynomial.X_pow_eq_monomial]

private theorem productFits_const (c : Rat) (p : Poly) : (const c).productFits p = true := by
  rw [productFits_iff, toPolynomial_const, Polynomial.natDegree_C, Nat.zero_add]
  exact natDegree_toPolynomial_lt p

private theorem const_mul_monomial (c : Rat) (hn : n < UInt64.size) :
    const c * monomial n 1 = monomial n c := by
  apply toPolynomial_injective
  rw [toPolynomial_mul_of_fits (productFits_const c _), toPolynomial_const, toPolynomial_monomial hn,
    toPolynomial_monomial hn, Polynomial.C_mul_monomial, mul_one]

private theorem signedInteger?_integer (n : Nat) : (Expr.integer n).signedInteger? = some (n : Int) := by
  simp [Expr.integer, Expr.signedInteger?, Expr.signedConst?]

private theorem exponentSize?_natCast (hn : n < UInt64.size) : Expr.exponentSize? n = some n := by
  rw [Expr.exponentSize?, Int.natAbs_natCast, if_pos hn]

private theorem mentions_variablePower (v : String) (n : Nat) : (variablePower v n).mentions v = true := by
  unfold variablePower
  split <;> simp [Expr.mentions]

private theorem ofExpr?_var (v : String) : ofExpr? v (.var v) = some x := by simp [ofExpr?, Expr.mentions]

private theorem ofExpr?_variablePower (v : String) (hn : n < UInt64.size) :
    ofExpr? v (variablePower v n) = some (monomial n 1) ∧
      (ofExprFits v (variablePower v n) = true ↔ n < 2 ^ 63) := by
  by_cases h1 : n = 1
  · subst h1
    rw [variablePower, if_pos rfl, ofExpr?_var]
    exact ⟨rfl, by simp [ofExprFits]⟩
  · have mentioned := mentions_variablePower v n
    have degree : x.toPolynomial.natDegree = 1 := by rw [toPolynomial_x, Polynomial.natDegree_X]
    have base : ofExprFits v (.var v) = true := by simp [ofExprFits]
    rw [variablePower, if_neg h1] at mentioned ⊢
    rw [ofExpr?, ofExprFits, if_neg (by simp [mentioned]), if_neg (by simp [mentioned]), ofExpr?_var,
      signedInteger?_integer, base]
    simp only [exponentSize?_natCast hn, Option.bind_eq_bind, Option.bind_some, Option.all_some,
      if_neg (Int.not_lt.mpr (Int.natCast_nonneg n)), power_x hn, Option.pure_def,
      decide_eq_false (Int.not_lt.mpr (Int.natCast_nonneg n)), Bool.false_or, Bool.true_and,
      powerFits_iff_of_natDegree_eq_one degree, true_and]

private theorem mentions_termExpr (h : t.1 ≠ 0) : (termExpr v t).mentions v = true := by
  unfold termExpr
  rw [if_neg h]
  split
  · exact mentions_variablePower v t.1
  · simp [Expr.mentions, mentions_variablePower]

private theorem ofExpr?_termExpr (v : String) (ht : t.1 < UInt64.size) :
    ofExpr? v (termExpr v t) = some (monomial t.1 t.2) ∧
      (ofExprFits v (termExpr v t) = true ↔ t.1 < 2 ^ 63) := by
  obtain ⟨n, c⟩ := t
  by_cases h0 : n = 0
  · subst h0
    exact ⟨rfl, iff_of_true rfl (Nat.two_pow_pos 63)⟩
  · have mentioned := mentions_termExpr (v := v) (t := (n, c)) h0
    obtain ⟨power, fits⟩ := ofExpr?_variablePower v ht
    have constant : ofExpr? v (.const c) = some (const c) := rfl
    have plain : ofExprFits v (.const c) = true := rfl
    rw [termExpr, if_neg h0] at mentioned ⊢
    by_cases h1 : c = 1
    · rw [if_pos h1, h1]
      exact ⟨power, fits⟩
    · rw [if_neg h1] at mentioned ⊢
      rw [ofExpr?, ofExprFits, if_neg (by simp [mentioned]), if_neg (by simp [mentioned]), constant, plain,
        power]
      simp only [Option.bind_eq_bind, Option.bind_some, const_mul_monomial c ht, Option.pure_def,
        Option.all_some, productFits_const, Bool.and_true, Bool.true_and, fits, true_and]

/-! ### Sums -/

private theorem ofExpr?_foldl_add (mentioned : ts ≠ [] → e.mentions v = true)
    (words : Below UInt64.size ts) (he : ofExpr? v e = some q) :
    (∃ r, ofExpr? v ((ts.map (termExpr v)).foldl .add e) = some r ∧
      r.toPolynomial = q.toPolynomial + sumOfTerms ts) ∧
    (ofExprFits v ((ts.map (termExpr v)).foldl .add e) = true ↔
      ofExprFits v e = true ∧ ∀ t ∈ ts, t.1 < 2 ^ 63) := by
  induction ts generalizing e q with
  | nil => exact ⟨⟨q, he, (add_zero _).symm⟩, (and_iff_left (List.forall_mem_nil _)).symm⟩
  | cons t ts ih =>
    obtain ⟨n, c⟩ := t
    obtain ⟨hn, rest⟩ := below_cons.mp words
    obtain ⟨term, termFits⟩ := ofExpr?_termExpr v (t := (n, c)) hn
    -- with the next term the sum so far still mentions the variable, so it is read part by part
    have first := mentioned (List.cons_ne_nil _ _)
    have extended : (Expr.add e (termExpr v (n, c))).mentions v = true := by simp [Expr.mentions, first]
    have sum : ofExpr? v (.add e (termExpr v (n, c))) = some (q + monomial n c) := by
      rw [ofExpr?, if_neg (by simp [extended]), he, term]
      rfl
    have sumFits : ofExprFits v (.add e (termExpr v (n, c))) = true ↔
        ofExprFits v e = true ∧ n < 2 ^ 63 := by
      rw [ofExprFits, if_neg (by simp [extended]), he, Option.all_some, Bool.and_eq_true, termFits]
    obtain ⟨⟨r, hr, value⟩, fits⟩ := ih (fun _ => extended) rest sum
    rw [List.map_cons, List.foldl_cons, fits, sumFits, List.forall_mem_cons, and_assoc]
    refine ⟨⟨r, hr, ?_⟩, Iff.rfl⟩
    rw [value, toPolynomial_add, toPolynomial_monomial hn, sumOfTerms_cons, add_assoc]

private theorem mentions_highest (canonical : Canonical (t :: ts)) (h : ts ≠ []) :
    (termExpr v t).mentions v = true := by
  obtain ⟨u, us, rfl⟩ := List.exists_cons_of_ne_nil h
  obtain ⟨-, below, -⟩ := canonical_cons.mp canonical
  have lower : u.1 < t.1 := below u List.mem_cons_self
  exact mentions_termExpr (by omega)

private theorem ofExpr?_toExpr_iff (p : Poly) (v : String) : ofExpr? v (p.toExpr v) = some p ∧
    (ofExprFits v (p.toExpr v) = true ↔ ∀ t ∈ p.terms, t.1 < 2 ^ 63) := by
  obtain ⟨ts, canonical, words⟩ := p
  cases ts with
  | nil => exact ⟨rfl, iff_of_true rfl (List.forall_mem_nil _)⟩
  | cons t ts =>
    obtain ⟨n, c⟩ := t
    obtain ⟨hn, rest⟩ := below_cons.mp words
    obtain ⟨term, termFits⟩ := ofExpr?_termExpr v (t := (n, c)) hn
    have written : (⟨(n, c) :: ts, canonical, words⟩ : Poly).toExpr v =
        (ts.map (termExpr v)).foldl .add (termExpr v (n, c)) := rfl
    obtain ⟨⟨r, hr, value⟩, fits⟩ := ofExpr?_foldl_add (mentions_highest canonical) rest term
    rw [written, hr, fits, termFits, List.forall_mem_cons]
    refine ⟨congrArg some (toPolynomial_injective ?_), Iff.rfl⟩
    rw [value, toPolynomial_monomial hn, toPolynomial, sumOfTerms_cons]

/-! ### Without divisors -/

private theorem outerDivisors_termExpr (v : String) (t : Term) : (termExpr v t).outerDivisors = [] := by
  unfold termExpr variablePower
  split_ifs <;> rfl

private theorem outerDivisors_foldl_add (he : e.outerDivisors = []) :
    ((ts.map (termExpr v)).foldl .add e).outerDivisors = [] := by
  induction ts generalizing e with
  | nil => exact he
  | cons t ts ih =>
    rw [List.map_cons, List.foldl_cons]
    apply ih
    rw [Expr.outerDivisors, he, outerDivisors_termExpr, List.append_nil]

private theorem outerDivisors_toExpr (p : Poly) (v : String) : (p.toExpr v).outerDivisors = [] := by
  obtain ⟨ts, canonical, words⟩ := p
  cases ts with
  | nil => rfl
  | cons t ts => exact outerDivisors_foldl_add (outerDivisors_termExpr v t)

/-- A polynomial is read back from its expression, as a polynomial and as a rational function with the
denominator one. No sum of powers wraps around while it is read if and only if all its powers are numbers of
63 bits. -/
theorem ofExpr?_toExpr (p : Poly) (v : String) :
    ofExpr? v (p.toExpr v) = some p ∧ RationalFunction.ofExpr? v (p.toExpr v) = some ⟨p, 1⟩ ∧
      (ofExprFits v (p.toExpr v) = true ∧ RationalFunction.ofExprFits v (p.toExpr v) = true ↔
        ∀ t ∈ p.terms, t.1 < 2 ^ 63) := by
  obtain ⟨polynomial, fits⟩ := ofExpr?_toExpr_iff p v
  have rules := ofExpr_of_eq_some polynomial
  have none := outerDivisors_toExpr p v
  refine ⟨polynomial, RationalFunction.ofExpr?_eq_ofPoly rules (none ▸ List.forall_mem_nil _), ?_⟩
  rw [RationalFunction.ofExprFits_eq rules none, and_self, fits]

end Tutor.Poly
