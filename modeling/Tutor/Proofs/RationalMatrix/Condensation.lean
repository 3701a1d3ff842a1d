import Mathlib.LinearAlgebra.Matrix.SchurComplement
import Tutor.Proofs.RationalMatrix.Determinant

/-!
Elimination without fractions, step by step. After `k` steps every entry that is left is a minor of the
matrix with its rows in the order that the exchanges brought them to: the minor on the first `k` rows and
columns and the row and the column of the entry. A step keeps this by Sylvester's identity, which says that
the two-by-two minors of such minors are divisible by the minor on the first `k` rows and columns; and that
one is the pivot of the step before. So the divisions of integers leave integers.
-/

set_option autoImplicit false
set_option relaxedAutoImplicit false

namespace Tutor.RationalMatrix

/-! ### Minors -/

/-- The numbers below `k` in their places, and `r` in all others. -/
def upTo (k r i : Nat) : Nat := if i < k then i else r

private theorem upTo_of_lt {k i : Nat} (r : Nat) (h : i < k) : upTo k r i = i := if_pos h

private theorem upTo_of_le {k i : Nat} (r : Nat) (h : k ≤ i) : upTo k r i = r := if_neg (not_lt.mpr h)

def leadingMinor (B : Nat → Nat → Rat) (k : Nat) : Rat := (Matrix.of fun i j : Fin k => B i j).det

/-- The minor on the first `k` rows and row `r`, and on the first `k` columns and column `c`. -/
def borderedMinor (B : Nat → Nat → Rat) (k r c : Nat) : Rat :=
  (Matrix.of fun i j : Fin (k + 1) => B (upTo k r i) (upTo k c j)).det

/-- What elimination of the first `k` rows and columns leaves of an entry. -/
noncomputable def remainder (B : Nat → Nat → Rat) (k r c : Nat) : Rat :=
  B r c - ∑ j : Fin k, (∑ i : Fin k, B r i * (Matrix.of fun i j : Fin k => B i j)⁻¹ i j) * B j c

section Minors

variable {B : Nat → Nat → Rat} {k : Nat}

/-- A minor on the first `k` rows and columns and some others is the leading minor times the minor on the
others of what elimination leaves. -/
private theorem det_eq_leadingMinor_mul {l : Nat} {f g : Nat → Nat} (hf : ∀ i < k, f i = i)
    (hg : ∀ j < k, g j = j) (h0 : leadingMinor B k ≠ 0) :
    (Matrix.of fun i j : Fin (k + l) => B (f i) (g j)).det = leadingMinor B k *
      (Matrix.of fun i j : Fin l => remainder B k (f (k + i)) (g (k + j))).det := by
  -- the first rows and columns are one block, and the rest becomes its Schur complement
  let P : Matrix (Fin k) (Fin k) ℚ := Matrix.of fun i j => B i j
  let : Invertible P := P.invertibleOfIsUnitDet (isUnit_iff_ne_zero.mpr h0)
  have blocks : (Matrix.of fun i j : Fin (k + l) => B (f i) (g j)).submatrix finSumFinEquiv
      finSumFinEquiv = Matrix.fromBlocks P (Matrix.of fun i (j : Fin l) => B i (g (k + j)))
        (Matrix.of fun (i : Fin l) j => B (f (k + i)) j)
        (Matrix.of fun i j => B (f (k + i)) (g (k + j))) := by
    ext (i | i) (j | j) <;> simp [P, hf, hg]
  have complement : Matrix.of (fun i j : Fin l => B (f (k + i)) (g (k + j))) -
      Matrix.of (fun (i : Fin l) (j : Fin k) => B (f (k + i)) j) * ⅟P *
        Matrix.of (fun (i : Fin k) (j : Fin l) => B i (g (k + j))) =
      Matrix.of fun i j : Fin l => remainder B k (f (k + i)) (g (k + j)) := by
    ext i j
    rw [Matrix.invOf_eq_nonsing_inv]
    simp only [Matrix.sub_apply, Matrix.of_apply, Matrix.mul_apply, remainder, P]
  rw [← Matrix.det_submatrix_equiv_self finSumFinEquiv, blocks, Matrix.det_fromBlocks₁₁, complement]
  rfl

private theorem borderedMinor_eq_mul_remainder (h0 : leadingMinor B k ≠ 0) (r c : Nat) :
    borderedMinor B k r c = leadingMinor B k * remainder B k r c := by
  have minor := det_eq_leadingMinor_mul (l := 1) (fun _ => upTo_of_lt r) (fun _ => upTo_of_lt c) h0
  rw [borderedMinor, minor, Matrix.det_fin_one, Matrix.of_apply, upTo_of_le r (by omega),
    upTo_of_le c (by omega)]

/-- Sylvester's identity for one further row and column. -/
private theorem borderedMinor_mul_sub_mul (h0 : leadingMinor B k ≠ 0) (r c : Nat) :
    borderedMinor B k r c * borderedMinor B k k k - borderedMinor B k r k * borderedMinor B k k c =
      leadingMinor B k * borderedMinor B (k + 1) r c := by
  have minor := det_eq_leadingMinor_mul (l := 2) (f := upTo (k + 1) r) (g := upTo (k + 1) c)
    (fun _ hi => upTo_of_lt r (by omega)) (fun _ hj => upTo_of_lt c (by omega)) h0
  have next : borderedMinor B (k + 1) r c = leadingMinor B k *
      (remainder B k k k * remainder B k r c - remainder B k k c * remainder B k r k) := by
    rw [borderedMinor, minor, Matrix.det_fin_two]
    simp [upTo]
  simp only [next, borderedMinor_eq_mul_remainder h0]
  ring

private theorem leadingMinor_succ (B : Nat → Nat → Rat) (k : Nat) :
    leadingMinor B (k + 1) = borderedMinor B k k k := by
  have last (i : Fin (k + 1)) : upTo k k i = i := by
    unfold upTo
    split_ifs <;> omega
  simp only [leadingMinor, borderedMinor, last]

private theorem den_borderedMinor (h : ∀ i j, (B i j).den = 1) (k r c : Nat) :
    (borderedMinor B k r c).den = 1 := by
  let integers : Matrix (Fin (k + 1)) (Fin (k + 1)) ℤ :=
    Matrix.of fun i j => (B (upTo k r i) (upTo k c j)).num
  have image : (Matrix.of fun i j : Fin (k + 1) => B (upTo k r i) (upTo k c j)) =
      (Int.castRingHom ℚ).mapMatrix integers := by
    ext i j
    exact (Rat.coe_int_num_of_den_eq_one (h _ _)).symm
  rw [borderedMinor, image, ← RingHom.map_det]
  exact Rat.den_intCast _

end Minors

/-! ### The run -/

def Integral (rows : List (List Rat)) : Prop := ∀ row ∈ rows, ∀ q ∈ row, q.den = 1

instance (rows : List (List Rat)) : Decidable (Integral rows) :=
  inferInstanceAs (Decidable (∀ row ∈ rows, _))

private theorem Integral.den_cell {rows : List (List Rat)} (h : Integral rows) (i j : Nat) :
    (cell rows i j).den = 1 := by
  unfold cell
  cases hrow : rows[i]? with
  | none => rfl
  | some row =>
    rw [Option.getD_some]
    cases hq : row[j]? with
    | none => rfl
    | some q => exact h row (List.mem_of_getElem? hrow) q (List.mem_of_getElem? hq)

private theorem integral_of_cell {n : Nat} {rows : List (List Rat)} (hs : IsSquare n rows)
    (h : ∀ i j, i < n → j < n → (cell rows i j).den = 1) : Integral rows := by
  intro row hrow q hq
  obtain ⟨i, hi, rfl⟩ := List.mem_iff_getElem.mp hrow
  obtain ⟨j, hj, rfl⟩ := List.mem_iff_getElem.mp hq
  have entry := h i j (hs.height ▸ hi) (hs.width _ hrow ▸ hj)
  rwa [cell, List.getElem?_eq_getElem hi, Option.getD_some, List.getElem?_eq_getElem hj,
    Option.getD_some] at entry

structure Condensation where
  /-- The number of steps done. -/
  steps : Nat
  /-- The pivot of the step before, by which the next one divides; one before the first step. -/
  previous : Rat
  /-- The rows and columns that are left. -/
  rows : List (List Rat)
  /-- The sign that the determinant takes by the exchanges so far. -/
  sign : Rat
  /-- The order of rows that the exchanges so far have brought: what stands at a place stood at
  `order place` first. -/
  order : Equiv.Perm Nat

namespace Condensation

def start (rows : List (List Rat)) : Condensation := ⟨0, 1, rows, 1, 1⟩

/-- One step: none is left for a single row, and none possible for a column of zeros. -/
def next? (s : Condensation) : Option Condensation :=
  if s.rows.length ≤ 1 then none
  else (condensationStep? s.previous s.rows).map fun step => {
    steps := s.steps + 1
    previous := step.pivot
    rows := step.rows
    sign := s.sign * step.sign
    order := s.order * Equiv.swap s.steps (s.steps + step.place) }

/-- Where elimination stands after some steps, if it comes that far. -/
def after? (rows : List (List Rat)) : Nat → Option Condensation
  | 0 => some (start rows)
  | k + 1 => (after? rows k).bind next?

end Condensation

def arranged (rows : List (List Rat)) (order : Equiv.Perm Nat) (i j : Nat) : Rat := cell rows (order i) j

private theorem borderedMinor_arranged_swap (rows : List (List Rat)) (order : Equiv.Perm Nat) (k i a c : Nat) :
    borderedMinor (arranged rows (order * Equiv.swap k (k + i))) k (k + a) c =
      borderedMinor (arranged rows order) k (k + Equiv.swap 0 i a) c := by
  have moved (x : Nat) : Equiv.swap k (k + i) (upTo k (k + a) x) = upTo k (k + Equiv.swap 0 i a) x := by
    by_cases hx : x < k
    · rw [upTo_of_lt _ hx, upTo_of_lt _ hx, Equiv.swap_apply_of_ne_of_ne (by omega) (by omega)]
    · rw [upTo_of_le _ (not_lt.mp hx), upTo_of_le _ (not_lt.mp hx), (add_right_injective k).map_swap,
        add_zero]
  simp only [borderedMinor, arranged, Equiv.Perm.mul_apply, moved]

private theorem leadingMinor_arranged_swap (rows : List (List Rat)) (order : Equiv.Perm Nat) (k i : Nat) :
    leadingMinor (arranged rows (order * Equiv.swap k (k + i))) k =
      leadingMinor (arranged rows order) k := by
  have fixed (x : Fin k) : Equiv.swap k (k + i) x = x :=
    Equiv.swap_apply_of_ne_of_ne (by omega) (by omega)
  simp only [leadingMinor, arranged, Equiv.Perm.mul_apply, fixed]

namespace Condensation

variable {n m k : Nat} {rows : List (List Rat)} {s s' : Condensation}

private theorem next?_eq_some (hs : IsSquare (n + 2) s.rows) (h : s.next? = some s') :
    ∃ i pivot rest, i < n + 2 ∧ IsSquare (n + 2) (pivot :: rest) ∧ head pivot ≠ 0 ∧
      (∀ a b, cell (pivot :: rest) a b = cell s.rows (Equiv.swap 0 i a) b) ∧
      s'.steps = s.steps + 1 ∧ s'.previous = head pivot ∧
      s'.rows = rest.map (condense s.previous pivot) ∧
      s'.order = s.order * Equiv.swap s.steps (s.steps + i) := by
  obtain ⟨height, width⟩ := hs
  rw [next?, if_neg (by omega), Option.map_eq_some_iff] at h
  obtain ⟨step, hstep, rfl⟩ := h
  obtain ⟨first, others, hrows⟩ := List.exists_cons_of_ne_nil (List.ne_nil_of_length_eq_add_one height)
  rw [hrows, condensationStep?, Option.map_eq_some_iff] at hstep
  obtain ⟨i, hi, rfl⟩ := hstep
  rw [hrows] at height width ⊢
  obtain ⟨pivot, hrow, hp⟩ := firstPivot?_some hi
  obtain ⟨rest, hexchange, hlength, hmem, hcell⟩ := exchange_eq hrow
  rw [hexchange]
  refine ⟨i, pivot, rest, height ▸ (List.getElem?_eq_some_iff.mp hrow).1,
    ⟨?_, fun r hr => width r (hmem r hr)⟩, hp, hcell, rfl, rfl, rfl, rfl⟩
  rw [← height, List.length_cons, List.length_cons, hlength]

/-- The determinant is taken from the next stage on, and is zero where no step is possible. -/
private theorem condensedDeterminant_next? (hs : IsSquare (n + 2) s.rows) :
    s.sign * condensedDeterminant s.previous (n + 2) s.rows =
      (s.next?.map fun t => t.sign * condensedDeterminant t.previous (n + 1) t.rows).getD 0 := by
  have several : ¬s.rows.length ≤ 1 := by
    rw [hs.height]
    omega
  rw [next?, if_neg several, condensedDeterminant]
  cases condensationStep? s.previous s.rows with
  | none => exact mul_zero _
  | some step => exact (mul_assoc _ _ _).symm

/-- What every step keeps: an entry that is left is the minor on the rows and columns of the steps done and
its own row and column, and the pivot of the step before is the minor on the rows and columns of the steps
done. -/
structure Minors (rows : List (List Rat)) (m : Nat) (s : Condensation) : Prop where
  square : IsSquare (m + 1) s.rows
  previous_ne_zero : s.previous ≠ 0
  previous_eq : s.previous = leadingMinor (arranged rows s.order) s.steps
  cell_eq : ∀ i j, i < m + 1 → j < m + 1 →
    cell s.rows i j = borderedMinor (arranged rows s.order) s.steps (s.steps + i) (s.steps + j)

private theorem minors_start (hs : IsSquare (m + 1) rows) : Minors rows m (start rows) where
  square := hs
  previous_ne_zero := one_ne_zero
  previous_eq := (Matrix.det_fin_zero).symm
  cell_eq i j _ _ := by
    simp only [start, borderedMinor, arranged, zero_add, upTo, Nat.not_lt_zero, if_false]
    exact (Matrix.det_fin_one (Matrix.of fun _ _ => cell rows i j)).symm

private theorem cell_condense {pivot : List Rat} {rest : List (List Rat)} (previous : Rat)
    (hs : IsSquare (n + 1) (pivot :: rest)) {a b : Nat} (ha : a < n) (hb : b < n) :
    cell (rest.map (condense previous pivot)) a b =
      (cell (pivot :: rest) (a + 1) (b + 1) * head pivot -
        cell (pivot :: rest) (a + 1) 0 * cell (pivot :: rest) 0 (b + 1)) / previous := by
  obtain ⟨row, hrow, value⟩ := squareOf_combine hs
    (fun row x y => (x * head pivot - head row * y) / previous) ⟨a, ha⟩ ⟨b, hb⟩
  simp only [squareOf_apply, Fin.val_succ, Fin.val_zero] at hrow value
  rw [← hrow]
  exact value

/-- A step keeps the minors, by Sylvester's identity. -/
theorem Minors.next (h : Minors rows (m + 1) s) (hs : s.next? = some s') : Minors rows m s' := by
  obtain ⟨i, pivot, rest, hi, square, hp, hcell, hsteps, hprevious, hrows, horder⟩ :=
    next?_eq_some h.square hs
  obtain ⟨k, hk⟩ : ∃ k, s.steps = k := ⟨_, rfl⟩
  obtain ⟨B, hB⟩ : ∃ B, arranged rows s'.order = B := ⟨_, rfl⟩
  have leading : leadingMinor B k = s.previous := by
    rw [← hB, horder, hk, leadingMinor_arranged_swap, h.previous_eq, hk]
  -- the exchanged rows hold the minors for the exchanged order
  have exchanged (a b : Nat) (ha : a < m + 2) (hb : b < m + 2) :
      cell (pivot :: rest) a b = borderedMinor B k (k + a) (k + b) := by
    have place : Equiv.swap 0 i a < m + 2 := by
      rw [Equiv.swap_apply_def]
      split_ifs <;> omega
    rw [hcell, h.cell_eq _ _ place hb, ← hB, horder, hk, borderedMinor_arranged_swap]
  have corner : head pivot = borderedMinor B k k k := by
    have first := exchanged 0 0 (by omega) (by omega)
    rwa [cell_cons_zero, ← head_eq] at first
  refine ⟨hrows ▸ isSquare_condense square s.previous, hprevious ▸ hp, ?_, fun a b ha hb => ?_⟩
  · rw [hprevious, hB, hsteps, hk, leadingMinor_succ, corner]
  · have identity := borderedMinor_mul_sub_mul (leading ▸ h.previous_ne_zero) (k + (a + 1)) (k + (b + 1))
    rw [hB, hsteps, hk, hrows, cell_condense s.previous square ha hb,
      exchanged (a + 1) (b + 1) (by omega) (by omega), exchanged (a + 1) 0 (by omega) (by omega),
      exchanged 0 (b + 1) (by omega) (by omega), corner, add_zero, identity, leading,
      mul_div_cancel_left₀ _ h.previous_ne_zero, add_right_comm k 1 a, add_right_comm k 1 b]
    rfl

private theorem next?_single (hs : IsSquare 1 s.rows) : s.next? = none := by
  rw [next?, if_pos hs.height.le]

private theorem minors_after? (hs : IsSquare (n + 1) rows) (h : after? rows k = some s) :
    ∃ m, k + m = n ∧ s.steps = k ∧ Minors rows m s := by
  induction k generalizing s with
  | zero =>
    obtain rfl := Option.some.inj h
    exact ⟨n, zero_add n, rfl, minors_start hs⟩
  | succ k ih =>
    obtain ⟨t, ht, hnext⟩ := Option.bind_eq_some_iff.mp h
    obtain ⟨m, hm, hsteps, minors⟩ := ih ht
    cases m with
    | zero => rw [next?_single minors.square] at hnext; cases hnext
    | succ m =>
      obtain ⟨-, -, -, -, -, -, -, steps, -⟩ := next?_eq_some minors.square hnext
      exact ⟨m, by omega, by rw [steps, hsteps], minors.next hnext⟩

private theorem condensedDeterminant_eq_after? (hs : IsSquare (n + 1) rows) (hkm : k + m = n) :
    condensedDeterminant 1 (n + 1) rows =
      ((after? rows k).map fun s => s.sign * condensedDeterminant s.previous (m + 1) s.rows).getD 0 := by
  induction k generalizing m with
  | zero =>
    obtain rfl : m = n := by omega
    exact (one_mul _).symm
  | succ k ih =>
    rw [ih (m := m + 1) (by omega), after?]
    cases hk : after? rows k with
    | none => rfl
    | some s =>
      obtain ⟨m', hm', -, minors⟩ := minors_after? hs hk
      obtain rfl : m' = m + 1 := by omega
      exact condensedDeterminant_next? minors.square

private theorem condensedDeterminant_one (previous : Rat) (rows : List (List Rat)) :
    condensedDeterminant previous 1 rows = cell rows 0 0 := by
  rw [condensedDeterminant, head_eq, List.head?_eq_getElem?, cell]
  omega

end Condensation

open Condensation (after?)

/-- Elimination without fractions on a square matrix of integers. The determinant is the last entry with the
sign of the exchanges, and zero if elimination does not come to its end. At every stage that is reached, the
determinant is that of what is left, with the sign; the pivot by which the next step divides is not zero, and
all entries are integers; and after `k` steps each entry is the minor on the first `k` rows and columns and
its own row and column, where the rows stand in the order that the exchanges have brought. -/
theorem condensation_minors (m : RationalMatrix) (square : m.rows = m.cols)
    (integral : Integral m.entries) :
    m.bareissDeterminant =
        .ok (((after? m.entries (m.rows - 1)).map fun s => s.sign * cell s.rows 0 0).getD 0) ∧
      ∀ k s, after? m.entries k = some s →
        m.bareissDeterminant = .ok (s.sign * condensedDeterminant s.previous (m.rows - k) s.rows) ∧
        s.previous ≠ 0 ∧ s.previous = leadingMinor (arranged m.entries s.order) k ∧
        IsSquare (m.rows - k) s.rows ∧ Integral s.rows ∧
        ∀ i j, i < m.rows - k → j < m.rows - k →
          cell s.rows i j = borderedMinor (arranged m.entries s.order) k (k + i) (k + j) := by
  have hs := isSquare_entries square
  have whole : m.bareissDeterminant = .ok (condensedDeterminant 1 m.rows m.entries) := if_pos square
  obtain ⟨n, hn⟩ := m.exists_rows_eq_succ
  rw [hn] at hs whole ⊢
  refine ⟨?_, fun k s h => ?_⟩
  · rw [whole, Condensation.condensedDeterminant_eq_after? hs (add_zero n), Nat.add_sub_cancel]
    simp only [zero_add, Condensation.condensedDeterminant_one]
  · obtain ⟨d, hd, steps, minors⟩ := Condensation.minors_after? hs h
    have size : n + 1 - k = d + 1 := by omega
    have integers (i j : Nat) : (arranged m.entries s.order i j).den = 1 := integral.den_cell _ j
    have left : Integral s.rows := integral_of_cell minors.square fun i j hi hj => by
      rw [minors.cell_eq i j hi hj]
      exact den_borderedMinor integers _ _ _
    rw [size, whole, Condensation.condensedDeterminant_eq_after? hs hd, h]
    subst steps
    exact ⟨rfl, minors.previous_ne_zero, minors.previous_eq, minors.square, left, minors.cell_eq⟩

/-- With zeros on the diagonal the first step exchanges rows. -/
theorem condensation_minors_zero_diagonal :
    let m : RationalMatrix := ⟨[[0, 1, 2], [3, 0, 5], [7, 8, 0]], 3, by decide, by decide, by decide⟩
    m.rows = m.cols ∧ Integral m.entries ∧ m.bareissDeterminant = .ok 83 ∧
      ∃ s, after? m.entries 2 = some s ∧ s.previous ≠ 0 ∧ Integral s.rows ∧
        cell s.rows 0 0 = borderedMinor (arranged m.entries s.order) 2 2 2 := by
  intro m
  have square : m.rows = m.cols := rfl
  have integral : Integral m.entries := by decide +kernel
  obtain ⟨value, stages⟩ := condensation_minors m square integral
  obtain ⟨s, hs⟩ := Option.isSome_iff_exists.mp (show (after? m.entries 2).isSome by decide +kernel)
  obtain ⟨-, nonzero, -, -, left, minors⟩ := stages 2 s hs
  refine ⟨square, integral, ?_, s, hs, nonzero, left, minors 0 0 (by decide) (by decide)⟩
  rw [value]
  decide +kernel

end Tutor.RationalMatrix
