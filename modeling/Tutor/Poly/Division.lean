import Tutor.Poly.Basic

/-!
Division with remainder, greatest common divisors, and the multiplicity of a root. One step of the
division cancels the highest term, so the rest has a lower degree; that is why division ends.
-/

set_option autoImplicit false
set_option relaxedAutoImplicit false

namespace Tutor.Poly

/-- What a division step leaves: the dividend without its highest term, less the matching multiple of
the lower terms of the divisor. -/
def reduce (p d : Poly) : Poly :=
  p.tail - d.tail.shift (p.bound - d.bound) (p.leading / d.leading)

theorem bound_reduce_lt {p d : Poly} (hd : d.bound ≠ 0) (h : d.bound ≤ p.bound) :
    (reduce p d).bound < p.bound := by
  have htp := bound_tail_lt p (by omega)
  have htd := bound_tail_lt d hd
  have hs := bound_shift_le (p.bound - d.bound) (p.leading / d.leading) d.tail
    (Nat.le_sub_one_of_lt htd)
  have := bound_sub_le p.tail (d.tail.shift (p.bound - d.bound) (p.leading / d.leading))
    (n := p.bound - 1) (by omega) (by omega)
  simp only [reduce]
  omega

/-- Quotient and remainder. Division by zero has quotient zero and leaves the dividend. -/
def divMod (p d : Poly) : Poly × Poly :=
  if h : d.bound = 0 ∨ p.bound < d.bound then (0, p)
  else
    have _lower : (reduce p d).bound < p.bound :=
      bound_reduce_lt (fun h0 => h (.inl h0)) (Nat.le_of_not_lt fun hl => h (.inr hl))
    let (q, r) := divMod (reduce p d) d
    (monomial (p.bound - d.bound) (p.leading / d.leading) + q, r)
termination_by p.bound

theorem bound_divMod_snd_lt (p : Poly) {d : Poly} (hd : d.bound ≠ 0) :
    (divMod p d).2.bound < d.bound := by
  induction hn : p.bound using Nat.strongRecOn generalizing p with
  | ind n ih =>
    rw [divMod]
    split
    · simp only; omega
    · exact ih _ (hn ▸ bound_reduce_lt hd (by omega)) _ rfl

private theorem bound_divMod_fst_le (p d : Poly) : (divMod p d).1.bound ≤ p.bound + 1 - d.bound := by
  induction hn : p.bound using Nat.strongRecOn generalizing p with
  | ind n ih =>
    rw [divMod]
    split
    · simp [bound_zero]
    · rename_i h
      have lt := bound_reduce_lt (p := p) (d := d) (by omega) (by omega)
      have rest := ih _ (hn ▸ lt) (reduce p d) rfl
      have first := bound_monomial_le (p.bound - d.bound) (p.leading / d.leading)
      exact bound_add_le _ _ (by omega) (by omega)

def divExact? (p d : Poly) : Option Poly :=
  let (q, r) := divMod p d
  if r.isZero then some q else none

theorem bound_divExact?_lt {p d q : Poly} (hp : p.bound ≠ 0) (hd : 2 ≤ d.bound)
    (h : p.divExact? d = some q) : q.bound < p.bound := by
  have := bound_divMod_fst_le p d
  simp only [divExact?] at h
  split at h
  · cases h; omega
  · cases h

/-- The greatest common divisor, with leading coefficient one; zero for two zeros. -/
def gcd (a b : Poly) : Poly :=
  if h : b.bound = 0 then a.monic
  else
    have _lower : (divMod a b).2.bound < b.bound := bound_divMod_snd_lt a h
    gcd b (divMod a b).2
termination_by b.bound

def linearRoot? (p : Poly) : Option Rat :=
  if p.degree? = some 1 then some (-p.coeff 0 / p.coeff 1) else none

theorem bound_linear (r : Rat) : (linear r).bound = 2 := by
  simp only [linear]
  split <;> rfl

theorem one_lt_bound_linear (r : Rat) : 1 < (linear r).bound := by
  have := bound_linear r
  omega

/-- How often `x - r` divides a polynomial; zero for the zero polynomial. -/
def multiplicity (p : Poly) (r : Rat) : Nat :=
  if hp : p.bound = 0 then 0
  else
    match h : p.divExact? (linear r) with
    | none => 0
    | some q =>
      have _lower : q.bound < p.bound := bound_divExact?_lt hp (one_lt_bound_linear r) h
      multiplicity q r + 1
termination_by p.bound

/-- The loop of the square-free decomposition. With `y` the product of the distinct factors of
multiplicity at least `i`, and `g` the product of these factors with multiplicities lowered by `i`,
the common divisor of both holds the factors of multiplicity above `i`. -/
def squareFreeParts (y g : Poly) (i : Nat) : Nat → List (Poly × Nat)
  | 0 => []
  | fuel + 1 =>
    if y.isOne || y.isZero then []
    else
      let z := gcd y g
      let part := (y.divExact? z).getD 0
      let rest := squareFreeParts z ((g.divExact? z).getD 0) (i + 1) fuel
      if part.isOne then rest else (part, i) :: rest

/-- The square-free decomposition: factors without repeated roots, each with its multiplicity, which
increases along the list. A multiplicity is at most the degree, which bounds the number of rounds.
Constants have no factors. -/
def squareFree (p : Poly) : List (Poly × Nat) :=
  if p.bound ≤ 1 then []
  else
    let m := p.monic
    let g := gcd m m.derivative
    squareFreeParts ((m.divExact? g).getD 0) g 1 p.bound

example : (squareFree (linear 1 * linear 1 * linear 2)).map (fun (p, m) => (p.terms, m)) =
    [([(1, 1), (0, -2)], 1), ([(1, 1), (0, -1)], 2)] := by decide +kernel

end Tutor.Poly
