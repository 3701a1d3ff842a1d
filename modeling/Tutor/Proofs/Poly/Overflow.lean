import Tutor.Poly.OfExpr
import Tutor.Proofs.Poly.Ring

/-!
Sums of powers that do not wrap around. The sums are formed where polynomials are multiplied: a product
stays right exactly if the degrees of its factors add up to a word. The loop of a power squares the base once
for every binary digit of the exponent, so the last square has the highest power of all.
-/

set_option autoImplicit false
set_option relaxedAutoImplicit false

namespace Tutor.Poly

variable {p q b : Poly} {n : Nat}

/-- No sum of powers wraps around in the product of two polynomials. -/
def productFits (p q : Poly) : Bool :=
  p.terms.all fun s => q.terms.all fun t => s.1 + t.1 < UInt64.size

/-- No sum of powers wraps around in the loop of a power, also not in its last square. -/
def powerFitsFrom (product base : Poly) (n : Nat) : Bool :=
  if n = 0 then true
  else (n % 2 = 0 || product.productFits base) && base.productFits base &&
    powerFitsFrom (if n % 2 = 1 then product * base else product) (base * base) (n / 2)
termination_by n

def powerFits (p : Poly) (n : Nat) : Bool := powerFitsFrom 1 p n

/-- No sum of powers wraps around while an expression is brought to a polynomial, as far as that gets. -/
def ofExprFits (v : String) (e : Expr) : Bool :=
  if e.mentions v = false then true
  else
    match e with
    | .add a b | .sub a b => ofExprFits v a && (ofExpr? v a).all fun _ => ofExprFits v b
    | .mul a b =>
      ofExprFits v a && (ofExpr? v a).all fun p =>
        ofExprFits v b && (ofExpr? v b).all fun q => p.productFits q
    | .div a b => b.constantValue?.all fun d => d = 0 || ofExprFits v a
    | .neg a => ofExprFits v a
    | .pow a b =>
      b.signedInteger?.all fun k => k < 0 || ofExprFits v a && (ofExpr? v a).all fun p =>
        (Expr.exponentSize? k).all fun n => p.powerFits n
    | _ => true

theorem productFits_iff : p.productFits q = true ↔
    p.toPolynomial.natDegree + q.toPolynomial.natDegree < UInt64.size := by
  have degree_of_zero {p : Poly} (h : p.bound = 0) : p.toPolynomial.natDegree = 0 := by
    rw [toPolynomial_eq_zero_iff.mpr h, Polynomial.natDegree_zero]
  have below (p : Poly) : ∀ t ∈ p.terms, t.1 ≤ p.toPolynomial.natDegree := by
    intro t ht
    have lower := (bound_le_iff p p.bound).mp le_rfl t ht
    have := (exists_highest (p := p) (by omega)).1
    omega
  simp only [productFits, List.all_eq_true, decide_eq_true_eq]
  constructor
  · intro fits
    by_cases hp : p.bound = 0
    · rw [degree_of_zero hp, Nat.zero_add]
      exact natDegree_toPolynomial_lt q
    by_cases hq : q.bound = 0
    · rw [degree_of_zero hq]
      exact natDegree_toPolynomial_lt p
    -- the highest terms of both factors are among those that are multiplied
    have highest {p : Poly} (hp : p.bound ≠ 0) : ∃ t ∈ p.terms, t.1 = p.toPolynomial.natDegree := by
      obtain ⟨ts, canonical, words⟩ := p
      cases ts with
      | nil => exact absurd rfl hp
      | cons t ts => exact ⟨t, List.mem_cons_self, (highest_of_canonical canonical).1.symm⟩
    obtain ⟨s, hs, top⟩ := highest hp
    obtain ⟨t, ht, top'⟩ := highest hq
    rw [← top, ← top']
    exact fits s hs t ht
  · intro small s hs t ht
    have := below p s hs
    have := below q t ht
    omega

theorem toPolynomial_mul_of_fits (h : p.productFits q = true) :
    (p * q).toPolynomial = p.toPolynomial * q.toPolynomial :=
  toPolynomial_mul (productFits_iff.mp h)

private theorem powerFitsFrom_of_ne_zero (h0 : n ≠ 0) : powerFitsFrom p b n = true ↔
    (n % 2 = 1 → p.productFits b = true) ∧ b.productFits b = true ∧
      powerFitsFrom (if n % 2 = 1 then p * b else p) (b * b) (n / 2) = true := by
  rw [powerFitsFrom, if_neg h0, Bool.and_eq_true, Bool.and_eq_true, Bool.or_eq_true, decide_eq_true_eq,
    and_assoc]
  refine and_congr_left' ?_
  rcases Nat.mod_two_eq_zero_or_one n with even | odd
  · simp [even]
  · simp [odd]

private theorem halves (n d : Nat) : n / 2 * (2 * d) + n % 2 * d = n * d := by
  rw [← Nat.mul_assoc, ← Nat.add_mul, show n / 2 * 2 + n % 2 = n by omega]

private theorem two_pow_size (h0 : n ≠ 0) (d : Nat) : 2 ^ n.size * d = 2 ^ (n / 2).size * (2 * d) := by
  have digits : n.size = (n / 2).size + 1 := by
    conv_lhs => rw [← Nat.bit_bodd_div2 n, Nat.size_bit (by rwa [Nat.bit_bodd_div2]), Nat.div2_val]
  rw [digits, pow_succ, Nat.mul_assoc]

/-- What the loop of a power goes through has degrees that are words, and so have its result and its last
square. -/
private theorem lt_of_powerFitsFrom (hp : p.toPolynomial ≠ 0) (h : powerFitsFrom p b n = true) :
    p.toPolynomial.natDegree + n * b.toPolynomial.natDegree < UInt64.size ∧
      2 ^ n.size * b.toPolynomial.natDegree < UInt64.size := by
  have factor := natDegree_toPolynomial_lt p
  have base := natDegree_toPolynomial_lt b
  by_cases hb : b.toPolynomial = 0
  · rw [hb, Polynomial.natDegree_zero]
    omega
  induction n using Nat.strongRecOn generalizing p b with
  | ind n ih =>
    by_cases h0 : n = 0
    · rw [h0, Nat.size_zero]
      omega
    rw [powerFitsFrom_of_ne_zero h0] at h
    obtain ⟨odd, square, rest⟩ := h
    have nonzero : (b * b).toPolynomial ≠ 0 := by
      rw [toPolynomial_mul_of_fits square]
      exact mul_ne_zero hb hb
    have twice : (b * b).toPolynomial.natDegree = 2 * b.toPolynomial.natDegree := by
      rw [toPolynomial_mul_of_fits square, Polynomial.natDegree_mul hb hb, two_mul]
    have exponent := halves n b.toPolynomial.natDegree
    rw [two_pow_size h0]
    split_ifs at rest with hodd
    · rw [hodd, Nat.one_mul] at exponent
      have product := toPolynomial_mul_of_fits (odd hodd)
      have total := ih (n / 2) (by omega) (by rw [product]; exact mul_ne_zero hp hb) rest
        (natDegree_toPolynomial_lt _) (natDegree_toPolynomial_lt _) nonzero
      rw [twice, product, Polynomial.natDegree_mul hp hb] at total
      omega
    · rw [show n % 2 = 0 by omega, Nat.zero_mul] at exponent
      have total := ih (n / 2) (by omega) hp rest factor (natDegree_toPolynomial_lt _) nonzero
      rw [twice] at total
      omega

private theorem powerFitsFrom_of_lt
    (product : p.toPolynomial.natDegree + n * b.toPolynomial.natDegree < UInt64.size)
    (square : 2 ^ n.size * b.toPolynomial.natDegree < UInt64.size) : powerFitsFrom p b n = true := by
  induction n using Nat.strongRecOn generalizing p b with
  | ind n ih =>
    by_cases h0 : n = 0
    · rw [powerFitsFrom, if_pos h0]
    rw [two_pow_size h0] at square
    have once : b.toPolynomial.natDegree ≤ n * b.toPolynomial.natDegree :=
      Nat.le_mul_of_pos_left _ (Nat.pos_of_ne_zero h0)
    have twice : 2 * b.toPolynomial.natDegree ≤ 2 ^ (n / 2).size * (2 * b.toPolynomial.natDegree) :=
      Nat.le_mul_of_pos_left _ (Nat.two_pow_pos _)
    have odd : p.productFits b = true := productFits_iff.mpr (by omega)
    have even : b.productFits b = true := productFits_iff.mpr (by omega)
    have degree := Polynomial.natDegree_mul_le (p := p.toPolynomial) (q := b.toPolynomial)
    have doubled : (b * b).toPolynomial.natDegree = 2 * b.toPolynomial.natDegree := by
      rw [toPolynomial_mul_of_fits even, ← sq, Polynomial.natDegree_pow]
    rw [← toPolynomial_mul_of_fits odd] at degree
    have exponent := halves n b.toPolynomial.natDegree
    refine (powerFitsFrom_of_ne_zero h0).mpr ⟨fun _ => odd, even, ih (n / 2) (by omega) ?_ ?_⟩
    · rw [doubled]
      split_ifs with hodd
      · rw [hodd, Nat.one_mul] at exponent
        omega
      · omega
    · rwa [doubled]

/-- The loop of a power takes one square for every binary digit of the exponent. -/
theorem powerFits_iff : p.powerFits n = true ↔ 2 ^ n.size * p.toPolynomial.natDegree < UInt64.size := by
  have exponent := Nat.mul_le_mul_right p.toPolynomial.natDegree (Nat.lt_size_self n).le
  constructor
  · intro h
    refine (lt_of_powerFitsFrom ?_ h).2
    rw [toPolynomial_one]
    exact one_ne_zero
  · intro h
    refine powerFitsFrom_of_lt ?_ h
    rw [toPolynomial_one, Polynomial.natDegree_one]
    omega

/-- The powers of a polynomial of degree one take exponents of 63 bits: the last square has one more. -/
theorem powerFits_iff_of_natDegree_eq_one (h : p.toPolynomial.natDegree = 1) :
    p.powerFits n = true ↔ n < 2 ^ 63 := by
  rw [powerFits_iff, h, Nat.mul_one, show UInt64.size = 2 ^ 64 from rfl,
    Nat.pow_lt_pow_iff_right Nat.one_lt_two, Nat.lt_succ_iff, Nat.size_le]

theorem powerFits_of_lt (h : 2 * (n * p.toPolynomial.natDegree) < UInt64.size) :
    p.powerFits n = true := by
  rw [powerFits_iff]
  by_cases h0 : n = 0
  · rw [h0, Nat.size_zero, pow_zero, Nat.one_mul]
    exact natDegree_toPolynomial_lt p
  have positive := Nat.size_pos.mpr (Nat.pos_of_ne_zero h0)
  have highest : 2 ^ (n.size - 1) ≤ n := Nat.lt_size.mp (Nat.sub_one_lt positive.ne')
  have digits : 2 ^ n.size = 2 * 2 ^ (n.size - 1) := by
    rw [← pow_succ', Nat.sub_add_cancel positive]
  rw [digits, Nat.mul_assoc]
  exact (Nat.mul_le_mul_left 2 (Nat.mul_le_mul_right _ highest)).trans_lt h

theorem toPolynomial_power_of_fits (h : p.powerFits n = true) :
    (p.power n).toPolynomial = p.toPolynomial ^ n :=
  toPolynomial_power <|
    (Nat.mul_le_mul_right _ (Nat.lt_size_self n).le).trans_lt (powerFits_iff.mp h)

/-- The square of the largest power is not used, and wraps around. -/
example : x.powerFits (2 ^ 63) = false ∧ (x.power (2 ^ 63)).terms = [(2 ^ 63, 1)] := by decide +kernel

end Tutor.Poly
