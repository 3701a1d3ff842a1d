import Mathlib.Data.List.Indexes
import Mathlib.LinearAlgebra.Matrix.Determinant.Basic
import Mathlib.Tactic.FieldSimp
import Tutor.RationalMatrix.Determinant

/-!
The three determinants are one: elimination with the largest pivot, elimination without fractions and
expansion along the first row all give the sum over the permutations. Both eliminations rest on one
fact, that a determinant is its first entry times the determinant of what elimination leaves.
-/

set_option autoImplicit false
set_option relaxedAutoImplicit false

namespace Tutor.RationalMatrix

def cell (rows : List (List Rat)) (i j : Nat) : Rat := (rows[i]?.getD [])[j]?.getD 0

def squareOf (n : Nat) (rows : List (List Rat)) : Matrix (Fin n) (Fin n) ℚ :=
  Matrix.of fun i j => cell rows i j

structure IsSquare (n : Nat) (rows : List (List Rat)) : Prop where
  height : rows.length = n
  width : ∀ row ∈ rows, row.length = n

theorem squareOf_apply {n : Nat} (rows : List (List Rat)) (i j : Fin n) :
    squareOf n rows i j = cell rows i j := rfl

theorem cell_cons_zero (row : List Rat) (rows : List (List Rat)) (j : Nat) :
    cell (row :: rows) 0 j = row[j]?.getD 0 := rfl

private theorem cell_cons_succ (row : List Rat) (rows : List (List Rat)) (i j : Nat) :
    cell (row :: rows) (i + 1) j = cell rows i j := rfl

theorem head_eq (row : List Rat) : head row = row[0]?.getD 0 := by
  rw [head, List.head?_eq_getElem?]

/-! ### Pivots -/

/-- What the search for the largest pivot knows of the rows that it has seen. -/
def Best (rows : List (List Rat)) (best : Option Nat × Rat) : Prop :=
  (best = (none, 0) ∧ ∀ row ∈ rows, head row = 0) ∨
    ∃ i row, best.1 = some i ∧ 0 < best.2 ∧ rows[i]? = some row ∧ head row ≠ 0

theorem Best.step {seen : List (List Rat)} {best : Option Nat × Rat} (h : Best seen best)
    (row : List Rat) :
    Best (seen ++ [row])
      (if best.2 < (head row).abs then (some seen.length, (head row).abs) else best) := by
  have kept {i : Nat} {r : List Rat} (hr : seen[i]? = some r) : (seen ++ [row])[i]? = some r := by
    rw [List.getElem?_append_left (List.getElem?_eq_some_iff.mp hr).1, hr]
  split_ifs with larger
  · have pos : 0 < (head row).abs := by
      rcases h with ⟨rfl, -⟩ | ⟨i, r, -, hpos, -⟩
      · exact larger
      · exact hpos.trans larger
    exact .inr ⟨seen.length, row, rfl, pos, by simp, Rat.abs_pos_iff.mp pos⟩
  · rcases h with ⟨rfl, hseen⟩ | ⟨i, r, hi, hpos, hr, hne⟩
    · refine .inl ⟨rfl, fun r hr => ?_⟩
      rcases List.mem_append.mp hr with hr | hr
      · exact hseen r hr
      · obtain rfl := List.mem_singleton.mp hr
        by_contra hne
        exact larger (Rat.abs_pos_iff.mpr hne)
    · exact .inr ⟨i, r, hi, hpos, kept hr, hne⟩

private theorem best_foldl (rows seen : List (List Rat)) (best : Option Nat × Rat) (h : Best seen best) :
    Best (seen ++ rows) ((rows.zipIdx seen.length).foldl
      (fun (best : Option Nat × Rat) (row, i) =>
        if best.2 < (head row).abs then (some i, (head row).abs) else best) best) := by
  induction rows generalizing seen best with
  | nil => simpa using h
  | cons row rows ih =>
    have next := ih (seen ++ [row]) _ (h.step row)
    rw [List.append_assoc, List.singleton_append, List.length_append, List.length_singleton] at next
    rw [List.zipIdx_cons, List.foldl_cons]
    exact next

private theorem largestPivot?_none {rows : List (List Rat)} (h : largestPivot? rows = none) :
    ∀ row ∈ rows, head row = 0 := by
  rcases best_foldl rows [] (none, 0) (.inl ⟨rfl, by simp⟩) with ⟨-, hrows⟩ | ⟨i, row, hi, -⟩
  · exact hrows
  · exact absurd (h.symm.trans hi) (by simp)

private theorem largestPivot?_some {rows : List (List Rat)} {i : Nat} (h : largestPivot? rows = some i) :
    ∃ row, rows[i]? = some row ∧ head row ≠ 0 := by
  rcases best_foldl rows [] (none, 0) (.inl ⟨rfl, by simp⟩) with ⟨hnone, -⟩ | ⟨j, row, hj, -, hrow⟩
  · exact absurd (h.symm.trans (congrArg Prod.fst hnone)) (by simp)
  · obtain rfl := Option.some.inj (h.symm.trans hj)
    exact ⟨row, hrow⟩

private theorem firstPivot?_none {rows : List (List Rat)} (h : firstPivot? rows = none) :
    ∀ row ∈ rows, head row = 0 := by
  simpa [firstPivot?] using h

theorem firstPivot?_some {rows : List (List Rat)} {i : Nat} (h : firstPivot? rows = some i) :
    ∃ row, rows[i]? = some row ∧ head row ≠ 0 := by
  obtain ⟨hi, hp, -⟩ := List.findIdx?_eq_some_iff_getElem.mp h
  exact ⟨rows[i], List.getElem?_eq_getElem hi, by simpa using hp⟩

/-! ### Exchanging rows -/

theorem exchange_eq {i : Nat} {first row : List Rat} {others : List (List Rat)}
    (hrow : (first :: others)[i]? = some row) :
    ∃ rest, exchange first others i = (row, rest, if i = 0 then 1 else -1) ∧
      rest.length = others.length ∧ (∀ r ∈ row :: rest, r ∈ first :: others) ∧
      ∀ a b, cell (row :: rest) a b = cell (first :: others) (Equiv.swap 0 i a) b := by
  cases i with
  | zero =>
    obtain rfl : first = row := by simpa using hrow
    refine ⟨others, rfl, rfl, fun r hr => hr, fun a b => ?_⟩
    rw [Equiv.swap_self, Equiv.refl_apply]
  | succ i =>
    rw [List.getElem?_cons_succ] at hrow
    obtain ⟨hi, -⟩ := List.getElem?_eq_some_iff.mp hrow
    refine ⟨others.set i first, by simp [exchange, hrow], List.length_set, ?_, ?_⟩
    · intro r hr
      rcases List.mem_cons.mp hr with rfl | hr
      · exact List.mem_cons_of_mem _ (List.mem_of_getElem? hrow)
      · rcases List.mem_or_eq_of_mem_set hr with hr | rfl
        · exact List.mem_cons_of_mem _ hr
        · exact List.mem_cons_self
    · intro a b
      cases a with
      | zero => rw [Equiv.swap_apply_left, cell_cons_zero, cell_cons_succ, cell, hrow, Option.getD_some]
      | succ a =>
        by_cases ha : a = i
        · rw [ha, Equiv.swap_apply_right, cell_cons_zero, cell_cons_succ, cell,
            List.getElem?_set_self hi, Option.getD_some]
        · rw [Equiv.swap_apply_of_ne_of_ne (Nat.succ_ne_zero a) (mt Nat.succ.inj ha), cell_cons_succ,
            cell_cons_succ, cell, cell, List.getElem?_set_ne (Ne.symm ha)]

private theorem exchange_spec {n i : Nat} {first row : List Rat} {others : List (List Rat)}
    (hs : IsSquare n (first :: others)) (hrow : (first :: others)[i]? = some row) :
    ∃ rest sign, exchange first others i = (row, rest, sign) ∧ IsSquare n (row :: rest) ∧
      (squareOf n (first :: others)).det = sign * (squareOf n (row :: rest)).det := by
  obtain ⟨rest, hexchange, hlength, hmem, hcell⟩ := exchange_eq hrow
  obtain ⟨height, width⟩ := hs
  refine ⟨rest, _, hexchange, ⟨?_, fun r hr => width r (hmem r hr)⟩, ?_⟩
  · rw [← height, List.length_cons, List.length_cons, hlength]
  · obtain ⟨m, rfl⟩ : ∃ m, n = m + 1 := ⟨others.length, by simpa using height.symm⟩
    have hi : i < m + 1 := height ▸ (List.getElem?_eq_some_iff.mp hrow).1
    have swapped : squareOf (m + 1) (row :: rest) =
        (squareOf (m + 1) (first :: others)).submatrix (Equiv.swap 0 ⟨i, hi⟩) id := by
      ext r c
      rw [Matrix.submatrix_apply, squareOf_apply, squareOf_apply, hcell, Fin.val_injective.map_swap,
        Fin.val_zero, id]
    rw [swapped, Matrix.det_permute]
    by_cases h0 : i = 0
    · simp [h0]
    · have place : (0 : Fin (m + 1)) ≠ ⟨i, hi⟩ := fun h => h0 (congrArg Fin.val h).symm
      simp [h0, Equiv.Perm.sign_swap place]

/-! ### One step of elimination -/

/-- What elimination leaves of a matrix below and right of its first entry. -/
def schur {n : Nat} (M : Matrix (Fin (n + 1)) (Fin (n + 1)) ℚ) : Matrix (Fin n) (Fin n) ℚ :=
  Matrix.of fun i j => M i.succ j.succ - M i.succ 0 / M 0 0 * M 0 j.succ

private theorem det_eq_mul_det_schur {n : Nat} (M : Matrix (Fin (n + 1)) (Fin (n + 1)) ℚ)
    (h0 : M 0 0 ≠ 0) : M.det = M 0 0 * (schur M).det := by
  -- `B` is `M` with multiples of its first row subtracted from the others
  let c : Fin (n + 1) → ℚ := Fin.cases 0 fun i => M i.succ 0 / M 0 0
  let B : Matrix (Fin (n + 1)) (Fin (n + 1)) ℚ := Matrix.of fun i j => M i j - c i * M 0 j
  have first (j : Fin (n + 1)) : B 0 j = M 0 j := by simp [B, c]
  have below (i : Fin n) : B i.succ 0 = 0 := by
    simp only [B, c, Matrix.of_apply, Fin.cases_succ]
    rw [div_mul_cancel₀ _ h0, sub_self]
  have minor : B.submatrix (Fin.succAbove 0) Fin.succ = schur M := by
    ext i j
    simp [B, c, schur]
  have same : M.det = B.det := by
    refine Matrix.det_eq_of_forall_row_eq_smul_add_const c 0 rfl fun i j => ?_
    rw [first]
    simp [B]
  rw [same, Matrix.det_succ_column_zero, Fin.sum_univ_succ]
  simp only [below, mul_zero, zero_mul, Finset.sum_const_zero, add_zero, Fin.val_zero, pow_zero,
    one_mul]
  rw [minor, first]

private theorem det_squareOf_of_heads {n : Nat} {rows : List (List Rat)}
    (h : ∀ row ∈ rows, head row = 0) : (squareOf (n + 1) rows).det = 0 := by
  refine Matrix.det_eq_zero_of_column_eq_zero 0 fun i => ?_
  rw [squareOf_apply, cell]
  cases hrow : rows[i.val]? with
  | none => rfl
  | some row =>
    rw [Option.getD_some, Fin.val_zero, ← head_eq]
    exact h row (List.mem_of_getElem? hrow)

section Step

variable {n : Nat} {pivot : List Rat} {rest : List (List Rat)}

private theorem squareOf_pivot : squareOf (n + 1) (pivot :: rest) 0 0 = head pivot := by
  rw [squareOf_apply, Fin.val_zero, cell_cons_zero, head_eq]

private theorem isSquare_combine (hs : IsSquare (n + 1) (pivot :: rest)) (f : List Rat → Rat → Rat → Rat) :
    IsSquare n (rest.map fun row => List.zipWith (f row) row.tail pivot.tail) where
  height := by simpa using hs.height
  width := by
    intro r hr
    obtain ⟨row, hrow, rfl⟩ := List.mem_map.mp hr
    have hp := hs.width pivot List.mem_cons_self
    have hr := hs.width row (List.mem_cons_of_mem _ hrow)
    simp [hp, hr]

theorem squareOf_combine (hs : IsSquare (n + 1) (pivot :: rest)) (f : List Rat → Rat → Rat → Rat)
    (i j : Fin n) : ∃ row, head row = squareOf (n + 1) (pivot :: rest) i.succ 0 ∧
      squareOf n (rest.map fun row => List.zipWith (f row) row.tail pivot.tail) i j =
        f row (squareOf (n + 1) (pivot :: rest) i.succ j.succ)
          (squareOf (n + 1) (pivot :: rest) 0 j.succ) := by
  have hi : i.val < rest.length := by
    have height := hs.height
    rw [List.length_cons] at height
    omega
  have hp : j.val + 1 < pivot.length := by
    have := hs.width pivot List.mem_cons_self
    omega
  have hr : j.val + 1 < rest[i.val].length := by
    have := hs.width _ (List.mem_cons_of_mem _ (List.getElem_mem hi))
    omega
  refine ⟨rest[i.val], ?_, ?_⟩
  · rw [squareOf_apply, Fin.val_succ, cell_cons_succ, cell, List.getElem?_eq_getElem hi,
      Option.getD_some, head_eq, Fin.val_zero]
  · simp [squareOf_apply, cell, hi, hp, hr, List.getElem?_zipWith]

private theorem isSquare_eliminate (hs : IsSquare (n + 1) (pivot :: rest)) :
    IsSquare n (rest.map (eliminate pivot)) := isSquare_combine hs _

theorem isSquare_condense (hs : IsSquare (n + 1) (pivot :: rest)) (previous : Rat) :
    IsSquare n (rest.map (condense previous pivot)) := isSquare_combine hs _

private theorem squareOf_eliminate (hs : IsSquare (n + 1) (pivot :: rest)) :
    squareOf n (rest.map (eliminate pivot)) = schur (squareOf (n + 1) (pivot :: rest)) := by
  ext i j
  obtain ⟨row, hrow, value⟩ := squareOf_combine hs (fun row a b => a - head row / head pivot * b) i j
  rw [schur, Matrix.of_apply, squareOf_pivot, ← hrow]
  exact value

private theorem squareOf_condense (hs : IsSquare (n + 1) (pivot :: rest)) (hp : head pivot ≠ 0)
    (previous : Rat) : squareOf n (rest.map (condense previous pivot)) =
      (head pivot / previous) • schur (squareOf (n + 1) (pivot :: rest)) := by
  ext i j
  obtain ⟨row, hrow, value⟩ := squareOf_combine hs
    (fun row a b => (a * head pivot - head row * b) / previous) i j
  rw [Matrix.smul_apply, schur, Matrix.of_apply, squareOf_pivot, ← hrow, smul_eq_mul]
  refine value.trans ?_
  field_simp

end Step

/-! ### The three determinants -/

private theorem eliminationDeterminant_eq_det {n : Nat} {rows : List (List Rat)} (hs : IsSquare n rows) :
    eliminationDeterminant n rows = (squareOf n rows).det := by
  induction n generalizing rows with
  | zero => simp [eliminationDeterminant]
  | succ n ih =>
    cases rows with
    | nil => exact absurd hs.height (by simp)
    | cons first others =>
      rw [eliminationDeterminant]
      split
      · rename_i hnone
        exact (det_squareOf_of_heads (largestPivot?_none hnone)).symm
      · rename_i i hsome
        obtain ⟨pivot, hrow, hp⟩ := largestPivot?_some hsome
        obtain ⟨rest, sign, hex, hs', hdet⟩ := exchange_spec hs hrow
        rw [hex, hdet, det_eq_mul_det_schur _ (by rwa [squareOf_pivot]), squareOf_pivot,
          ← squareOf_eliminate hs', ← ih (isSquare_eliminate hs'), ← mul_assoc]

private theorem condensedDeterminant_eq_det {n : Nat} {previous : Rat} {rows : List (List Rat)}
    (h0 : previous ≠ 0) (hs : IsSquare (n + 1) rows) :
    condensedDeterminant previous (n + 1) rows = (squareOf (n + 1) rows).det / previous ^ n := by
  induction n generalizing previous rows with
  | zero =>
    rw [Matrix.det_fin_one, pow_zero, div_one, squareOf_apply, condensedDeterminant, head_eq,
      List.head?_eq_getElem?, Fin.val_zero, cell]
    simp
  | succ n ih =>
    cases rows with
    | nil => exact absurd hs.height (by simp)
    | cons first others =>
      rw [condensedDeterminant, condensationStep?]
      cases hpivot : firstPivot? (first :: others) with
      | none =>
        rw [det_squareOf_of_heads (firstPivot?_none hpivot), zero_div]
        rfl
      | some i =>
        obtain ⟨pivot, hrow, hp⟩ := firstPivot?_some hpivot
        obtain ⟨rest, sign, hex, hs', hdet⟩ := exchange_spec hs hrow
        rw [Option.map_some, hex, hdet, det_eq_mul_det_schur _ (by rwa [squareOf_pivot]), squareOf_pivot]
        dsimp only
        rw [ih hp (isSquare_condense hs' previous), squareOf_condense hs' hp, Matrix.det_smul,
          Fintype.card_fin, div_pow, pow_succ (head pivot)]
        field_simp

private theorem alternatingSum_ofFn {n : Nat} (f : Fin n → Rat) :
    alternatingSum (List.ofFn f) = ∑ j : Fin n, (-1) ^ j.val * f j := by
  induction n with
  | zero => rfl
  | succ n ih =>
    rw [List.ofFn_succ, alternatingSum, ih, Fin.sum_univ_succ, Fin.val_zero, pow_zero, one_mul,
      sub_eq_add_neg, ← Finset.sum_neg_distrib]
    congr 1
    refine Finset.sum_congr rfl fun j _ => ?_
    rw [Fin.val_succ, pow_succ]
    ring

private theorem alternatingSum_mapIdx {n : Nat} {row : List Rat} (h : row.length = n)
    (f : Nat → Rat → Rat) :
    alternatingSum (row.mapIdx f) = ∑ j : Fin n, (-1) ^ j.val * f j (row[j.val]?.getD 0) := by
  subst h
  rw [List.mapIdx_eq_ofFn, alternatingSum_ofFn]
  refine Finset.sum_congr rfl fun j _ => ?_
  rw [List.getElem?_eq_getElem j.isLt, Option.getD_some, List.get_eq_getElem]

private theorem squareOf_eraseIdx {n : Nat} (row : List Rat) {rest : List (List Rat)} (j : Fin (n + 1)) :
    squareOf n (rest.map (·.eraseIdx j)) =
      (squareOf (n + 1) (row :: rest)).submatrix Fin.succ j.succAbove := by
  ext r c
  rw [Matrix.submatrix_apply, squareOf_apply, squareOf_apply, Fin.val_succ, cell_cons_succ, cell, cell,
    List.getElem?_map]
  cases rest[r.val]? with
  | none => rfl
  | some row =>
    rw [Option.map_some, Option.getD_some, Option.getD_some, List.getElem?_eraseIdx]
    by_cases hc : c.val < j.val
    · rw [if_pos hc, Fin.succAbove_of_castSucc_lt _ _ hc, Fin.val_castSucc]
    · rw [if_neg hc, Fin.succAbove_of_le_castSucc _ _ (not_lt.mp hc), Fin.val_succ]

private theorem isSquare_eraseIdx {n : Nat} {row : List Rat} {rest : List (List Rat)}
    (hs : IsSquare (n + 1) (row :: rest)) (j : Fin (n + 1)) :
    IsSquare n (rest.map (·.eraseIdx j)) where
  height := by simpa using hs.height
  width := by
    intro r hr
    obtain ⟨source, hsource, rfl⟩ := List.mem_map.mp hr
    have hlength := hs.width source (List.mem_cons_of_mem _ hsource)
    rw [List.length_eraseIdx_of_lt (by omega)]
    omega

private theorem expansionDeterminant_eq_det {n : Nat} {rows : List (List Rat)} (hs : IsSquare n rows) :
    expansionDeterminant rows = (squareOf n rows).det := by
  induction n generalizing rows with
  | zero =>
    rw [List.length_eq_zero_iff.mp hs.height, expansionDeterminant, Matrix.det_fin_zero]
  | succ n ih =>
    cases rows with
    | nil => exact absurd hs.height (by simp)
    | cons row rest =>
      rw [expansionDeterminant, alternatingSum_mapIdx (hs.width row List.mem_cons_self),
        Matrix.det_succ_row_zero]
      refine Finset.sum_congr rfl fun j _ => ?_
      rw [squareOf_apply, Fin.val_zero, cell_cons_zero, ih (isSquare_eraseIdx hs j),
        squareOf_eraseIdx row]
      split_ifs with hzero
      · rw [hzero, mul_zero, zero_mul]
      · rw [mul_assoc]

/-- The determinant as a sum over the permutations of the places. -/
def leibnizDeterminant (m : RationalMatrix) : Rat :=
  ∑ σ : Equiv.Perm (Fin m.rows), (Equiv.Perm.sign σ : ℤ) * ∏ i, cell m.entries (σ i) i

private theorem leibnizDeterminant_eq_det (m : RationalMatrix) :
    m.leibnizDeterminant = (squareOf m.rows m.entries).det := by
  rw [Matrix.det_apply']
  rfl

theorem isSquare_entries {m : RationalMatrix} (h : m.rows = m.cols) : IsSquare m.rows m.entries :=
  ⟨rfl, fun row hrow => (m.rectangular row hrow).trans h.symm⟩

theorem exists_rows_eq_succ (m : RationalMatrix) : ∃ n, m.rows = n + 1 :=
  Nat.exists_eq_succ_of_ne_zero (mt List.length_eq_zero_iff.mp m.rows_nonempty)

/-- Elimination with the largest pivot, elimination without fractions and expansion along first rows
give the sum over the permutations for every square matrix. -/
theorem determinants_of_square (m : RationalMatrix) (h : m.rows = m.cols) :
    m.determinant = .ok m.leibnizDeterminant ∧ m.bareissDeterminant = .ok m.leibnizDeterminant ∧
      m.cofactorDeterminant = .ok m.leibnizDeterminant := by
  have hs := isSquare_entries h
  obtain ⟨n, hn⟩ := m.exists_rows_eq_succ
  rw [leibnizDeterminant_eq_det]
  refine ⟨?_, ?_, ?_⟩
  · rw [determinant, onSquare, if_pos h, eliminationDeterminant_eq_det hs]
  · rw [bareissDeterminant, onSquare, if_pos h]
    rw [hn] at hs ⊢
    rw [condensedDeterminant_eq_det one_ne_zero hs, one_pow, div_one]
  · rw [cofactorDeterminant, onSquare, if_pos h, expansionDeterminant_eq_det hs]

/-- The three ways to a determinant give the sum over the permutations for every square matrix, and the
same failure for every other. -/
theorem determinants_agree (m : RationalMatrix) :
    (m.rows = m.cols →
      m.determinant = .ok m.leibnizDeterminant ∧ m.bareissDeterminant = .ok m.leibnizDeterminant ∧
        m.cofactorDeterminant = .ok m.leibnizDeterminant) ∧
    (m.rows ≠ m.cols →
      m.determinant = .error (.notSquare m.rows m.cols) ∧
        m.bareissDeterminant = .error (.notSquare m.rows m.cols) ∧
        m.cofactorDeterminant = .error (.notSquare m.rows m.cols)) := by
  constructor
  · exact m.determinants_of_square
  · intro h
    simp only [determinant, bareissDeterminant, cofactorDeterminant, onSquare, if_neg h, and_self]

/-- Zeros on the diagonal force exchanges of rows, and all three determinants are 83. -/
theorem determinants_agree_zero_diagonal :
    let m : RationalMatrix := ⟨[[0, 1, 2], [3, 0, 5], [7, 8, 0]], 3, by decide, by decide, by decide⟩
    m.rows = m.cols ∧ m.determinant = .ok 83 ∧ m.bareissDeterminant = .ok 83 ∧
      m.cofactorDeterminant = .ok 83 := by
  intro m
  have value : m.leibnizDeterminant = 83 := by decide +kernel
  rw [← value]
  exact ⟨rfl, (determinants_agree m).1 rfl⟩

end Tutor.RationalMatrix
