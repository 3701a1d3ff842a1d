import Mathlib.Data.Nat.Prime.Basic
import Tutor.Proofs.Number.Square

/-!
The square factor of an integer. The loop tries divisors in ascending order while the number they are tried
on shrinks; the squares tried so far never divide what is left, and where the loop stops early, all further
squares exceed it. A perfect square that is left is taken as a whole. So the rest is divided by no square of
a prime within the bound, and it is one exactly for perfect squares.
-/

set_option autoImplicit false
set_option relaxedAutoImplicit false

namespace Tutor.Number

variable {d n s r rest rest' : Nat}

/-- No square of a number above one and below `d` divides the rest. -/
def SquaresTried (d rest : Nat) : Prop := ∀ k, 2 ≤ k → k < d → ¬ k * k ∣ rest

/-! ### One step -/

private theorem squaresTried_two (rest : Nat) : SquaresTried 2 rest := by
  intro k hk hlt
  omega

theorem SquaresTried.succ (h : SquaresTried d rest) (hd : ¬ d * d ∣ rest) :
    SquaresTried (d + 1) rest := by
  intro k hk hlt
  obtain hkd | rfl := Nat.lt_succ_iff_lt_or_eq.mp hlt
  · exact h k hk hkd
  · exact hd

theorem SquaresTried.of_dvd (h : SquaresTried d rest) (hdvd : rest' ∣ rest) : SquaresTried d rest' := by
  intro k hk hlt hsquare
  exact h k hk hlt (hsquare.trans hdvd)

private theorem SquaresTried.of_lt_square (h : SquaresTried d rest) (hrest : rest ≠ 0) (hlt : rest < d * d)
    (m : Nat) : SquaresTried m rest := by
  intro k hk _ hsquare
  by_cases hkd : k < d
  · exact h k hk hkd hsquare
  · have fits : k * k ≤ rest := Nat.le_of_dvd (Nat.pos_of_ne_zero hrest) hsquare
    have exceeds : d * d ≤ k * k := Nat.mul_self_le_mul_self (Nat.le_of_not_lt hkd)
    omega

/-! ### The run -/

/-- The loop tries every square up to the bound. -/
private theorem squaresTried_splitSquareFrom {d : Nat} (root : Nat) {rest : Nat} (hd : 2 ≤ d) (hrest : rest ≠ 0)
    (h : SquaresTried d rest) : SquaresTried (trialBound + 1) (splitSquareFrom d root rest).2 := by
  induction d, root, rest using splitSquareFrom.induct with
  | case1 d root rest running hmod _ ih =>
    rw [splitSquareFrom, dif_pos running, if_pos hmod]
    have hdvd : d * d ∣ rest := Nat.dvd_of_mod_eq_zero hmod
    have hquotient : rest / (d * d) ≠ 0 :=
      (Nat.div_ne_zero_iff_of_dvd hdvd).mpr ⟨hrest, ne_zero_of_dvd_ne_zero hrest hdvd⟩
    exact ih hd hquotient (h.of_dvd (Nat.div_dvd_of_dvd hdvd))
  | case2 d root rest running hmod ih =>
    rw [splitSquareFrom, dif_pos running, if_neg hmod]
    exact ih (by omega) hrest (h.succ (mt Nat.mod_eq_zero_of_dvd hmod))
  | case3 d root rest stopped =>
    rw [splitSquareFrom, dif_neg stopped]
    by_cases bounded : d ≤ trialBound
    · exact h.of_lt_square hrest (by omega) _
    · intro k hk hlt
      exact h k hk (by omega)

private theorem absorbSquare_snd_dvd (x : Nat × Nat) : (absorbSquare x).2 ∣ x.2 := by
  obtain ⟨root, rest⟩ := x
  rw [absorbSquare]
  split
  · split_ifs
    · exact one_dvd rest
    · exact dvd_rfl
  · exact dvd_rfl

private theorem squaresTried_splitSquare (hn : n ≠ 0) : SquaresTried (trialBound + 1) (splitSquare n).2 :=
  (squaresTried_splitSquareFrom 1 le_rfl hn (squaresTried_two n)).of_dvd (absorbSquare_snd_dvd _)

/-! ### The parts -/

private theorem parts_ne_zero (h : splitSquare n = (s, r)) (hn : n ≠ 0) : s ≠ 0 ∧ r ≠ 0 := by
  rw [← product_of_splitSquare h] at hn
  exact ⟨left_ne_zero_of_mul (left_ne_zero_of_mul hn), right_ne_zero_of_mul hn⟩

private theorem isSquare_of_isSquare_mul (hs : s ≠ 0) (h : IsSquare (s * s * r)) : IsSquare r := by
  obtain ⟨t, ht⟩ := h
  have squares : s ^ 2 ∣ t ^ 2 := ⟨r, by rw [sq, sq, ht]⟩
  obtain ⟨u, rfl⟩ : s ∣ t := (Nat.pow_dvd_pow_iff two_ne_zero).mp squares
  refine ⟨u, mul_left_cancel₀ (mul_ne_zero hs hs) ?_⟩
  rw [ht, mul_mul_mul_comm]

private theorem rest_eq_one_iff (h : splitSquare n = (s, r)) (hn : n ≠ 0) : r = 1 ↔ IsSquare n := by
  have product := product_of_splitSquare h
  constructor
  · rintro rfl
    exact ⟨s, by rw [← product, mul_one]⟩
  · intro square
    by_contra hr
    rw [← product] at square
    exact not_isSquare_of_splitSquare h hn hr
      (isSquare_of_isSquare_mul (parts_ne_zero h hn).1 square)

/-- A positive integer is written as a square times a rest. The rest is one exactly if the integer is a
perfect square, and no square of a prime up to the bound of trial division divides it. -/
theorem splitSquare_exact (hn : 1 ≤ n) : ∃ s r, splitSquare n = (s, r) ∧ 1 ≤ s ∧ 1 ≤ r ∧
    n = s ^ 2 * r ∧ (r = 1 ↔ IsSquare n) ∧ ∀ p, p.Prime → p ≤ 100000 → ¬ p ^ 2 ∣ r := by
  have hn0 : n ≠ 0 := Nat.one_le_iff_ne_zero.mp hn
  have tried := squaresTried_splitSquare hn0
  obtain ⟨⟨s, r⟩, h⟩ : ∃ parts, splitSquare n = parts := ⟨_, rfl⟩
  obtain ⟨hs, hr⟩ := parts_ne_zero h hn0
  have product : n = s ^ 2 * r := by rw [sq, product_of_splitSquare h]
  refine ⟨s, r, h, Nat.one_le_iff_ne_zero.mpr hs, Nat.one_le_iff_ne_zero.mpr hr, product,
    rest_eq_one_iff h hn0, ?_⟩
  intro p hp bounded
  rw [sq]
  rw [h] at tried
  exact tried p hp.two_le (Nat.lt_succ_of_le bounded)

/-- A square of a prime beyond the bound is found without trying it: `4 (10⁹ + 7)²` is all square. -/
theorem splitSquare_exact_large_prime :
    1 ≤ 4 * 1000000007 ^ 2 ∧ splitSquare (4 * 1000000007 ^ 2) = (2 * 1000000007, 1) := by
  have positive : 1 ≤ 4 * 1000000007 ^ 2 := by decide
  obtain ⟨s, r, hsplit, -, -, product, square, -⟩ := splitSquare_exact positive
  obtain rfl : r = 1 := square.mpr ⟨2 * 1000000007, by decide⟩
  have root : (2 * 1000000007) ^ 2 = s ^ 2 := by rw [mul_one] at product; exact product
  obtain rfl : 2 * 1000000007 = s := Nat.pow_left_injective two_ne_zero root
  exact ⟨positive, hsplit⟩

end Tutor.Number
