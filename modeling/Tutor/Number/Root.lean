/-!
Integer square roots, and the exact square root of a rational. The main statements say that the
integer root is the largest one whose square fits, and that an exact root squares to its argument.
-/

set_option autoImplicit false
set_option relaxedAutoImplicit false

namespace Tutor.Number

/-- The largest `r` with `r * r ≤ n`, one binary digit of `r` for every two of `n`. -/
def floorSqrt (n : Nat) : Nat :=
  if n = 0 then 0
  else
    let r := 2 * floorSqrt (n / 4)
    if (r + 1) * (r + 1) ≤ n then r + 1 else r
termination_by n

theorem floorSqrt_bounds (n : Nat) :
    floorSqrt n * floorSqrt n ≤ n ∧ n < (floorSqrt n + 1) * (floorSqrt n + 1) := by
  induction n using Nat.strongRecOn with
  | ind n ih =>
    by_cases hn : n = 0
    · subst hn; simp [floorSqrt]
    · have bounds := ih (n / 4) (by omega)
      rw [floorSqrt, if_neg hn]
      generalize floorSqrt (n / 4) = s at bounds
      have next : (2 * s + 1 + 1) * (2 * s + 1 + 1) = 4 * ((s + 1) * (s + 1)) := by grind
      have square : (2 * s) * (2 * s) = 4 * (s * s) := by grind
      dsimp only
      split
      · exact ⟨by assumption, by omega⟩
      · exact ⟨by omega, by omega⟩

private theorem floorSqrt_mul_self (r : Nat) : floorSqrt (r * r) = r := by
  have h := floorSqrt_bounds (r * r)
  generalize floorSqrt (r * r) = s at h
  have hle : s ≤ r := Nat.mul_self_le_mul_self_iff.mp h.1
  have hlt : r < s + 1 := Nat.mul_self_lt_mul_self_iff.mp h.2
  omega

def exactSqrt? (n : Nat) : Option Nat :=
  let r := floorSqrt n
  if r * r = n then some r else none

/-- The non-negative square root of a rational whose numerator and denominator are both perfect
squares; since the fraction is in lowest terms, no other rational has a rational root. -/
def exactRationalSqrt? (q : Rat) : Option Rat :=
  if q < 0 then none
  else do
    let n ← exactSqrt? q.num.toNat
    let d ← exactSqrt? q.den
    return mkRat n d

theorem exactSqrt?_eq_some_iff {n r : Nat} : exactSqrt? n = some r ↔ r * r = n := by
  simp only [exactSqrt?]
  constructor
  · intro h
    split at h
    · cases h; assumption
    · cases h
  · rintro rfl
    simp [floorSqrt_mul_self]

end Tutor.Number
