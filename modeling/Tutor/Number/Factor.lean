import Tutor.Number.Root

/-!
Divisors and square factors of integers by trial division, which stops at a fixed bound.
-/

set_option autoImplicit false
set_option relaxedAutoImplicit false

namespace Tutor.Number

def trialBound : Nat := 100000

/-- The positive divisors of a number whose root is within the bound: every divisor up to the root,
and the quotient by it. -/
def divisors? (n : Nat) : Option (List Nat) :=
  if trialBound * trialBound < n then none
  else
    let small := (List.range' 1 (floorSqrt n)).filter fun d => n % d = 0
    some (small ++ small.map (n / ·))

/-- Moves square factors of `rest` into `root`, trying the divisors from `d` on. The product of
`rest` and the square of `root` stays the same. -/
def splitSquareFrom (d root rest : Nat) : Nat × Nat :=
  if h : 2 ≤ d ∧ d ≤ trialBound ∧ d * d ≤ rest then
    if rest % (d * d) = 0 then
      have _smaller : rest / (d * d) < rest :=
        Nat.div_lt_self (by have := Nat.mul_le_mul h.1 h.1; omega)
          (by have := Nat.mul_le_mul h.1 h.1; omega)
      splitSquareFrom d (root * d) (rest / (d * d))
    else splitSquareFrom (d + 1) root rest
  else (root, rest)
termination_by rest + (trialBound + 1 - d)

/-- Moves a rest that is a perfect square above one into the root. -/
def absorbSquare : Nat × Nat → Nat × Nat
  | (root, rest) =>
    match exactSqrt? rest with
    | some r => if 1 < rest then (root * r, 1) else (root, rest)
    | none => (root, rest)

/-- Writes a number as `s² · r`: square factors of divisors up to the bound go into `s`, and if a
perfect square is left, it goes there too. -/
def splitSquare (n : Nat) : Nat × Nat := absorbSquare (splitSquareFrom 2 1 n)

theorem splitSquareFrom_product (d root rest : Nat) :
    let (s, r) := splitSquareFrom d root rest
    s * s * r = root * root * rest := by
  induction d, root, rest using splitSquareFrom.induct with
  | case1 d root rest h hd _ ih =>
    rw [splitSquareFrom, dif_pos h, if_pos hd]
    have whole := Nat.div_mul_cancel (Nat.dvd_of_mod_eq_zero hd)
    simp only at ih ⊢
    rw [ih]
    grind
  | case2 d root rest h hd ih =>
    rw [splitSquareFrom, dif_pos h, if_neg hd]
    exact ih
  | case3 d root rest h =>
    rw [splitSquareFrom, dif_neg h]

example : splitSquare 72 = (6, 2) := by decide +kernel

end Tutor.Number
