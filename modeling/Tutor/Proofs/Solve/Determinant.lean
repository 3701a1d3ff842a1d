import Tutor.Proofs.RationalMatrix.Determinant
import Tutor.Proofs.Text.Lowercase
import Tutor.Proofs.Wording.Rows
import Tutor.Solve.Determinant

/-!
Determinants of written matrices. The solver finds the rows of a matrix that stands in a text and answers
with its determinant, or refuses its shape.
-/

set_option autoImplicit false
set_option relaxedAutoImplicit false

namespace Tutor.Solve

open Text (contains lowerChars)

private theorem exists_ofRows {rows : List (List Int)} {n : Nat} (some_row : rows ≠ []) (positive : 0 < n)
    (rectangular : ∀ row ∈ rows, row.length = n) :
    ∃ m, RationalMatrix.ofRows rows = .ok m ∧ m.cols = n ∧
      m.entries = rows.map fun row => row.map fun n : Int => (n : Rat) := by
  obtain ⟨first, others, rfl⟩ := List.exists_cons_of_ne_nil some_row
  have width : first.length = n := rectangular first List.mem_cons_self
  have uniform : (first :: others).find? (fun row => row.length ≠ first.length) = none := by
    rw [List.find?_eq_none]
    intro row mem
    simp [rectangular row mem, width]
  unfold RationalMatrix.ofRows
  split
  · contradiction
  · rename_i start _ same
    cases same
    rw [dif_neg (by omega)]
    split
    · rename_i found
      rw [uniform] at found
      cases found
    · exact ⟨_, rfl, width, rfl⟩

variable {before behind : String} {rows : List (List Int)} {m : RationalMatrix}

private theorem rowsOf_text (some_row : rows ≠ []) (nonempty : ∀ row ∈ rows, row ≠ [])
    (entries : m.entries = rows.map fun row => row.map fun n : Int => (n : Rat))
    (hbefore : '[' ∉ before.toList) (hbehind : '[' ∉ behind.toList) :
    rowsOf (before ++ m.text ++ behind) = .ok rows := by
  rw [rowsOf, String.toList_append, String.toList_append,
    Wording.matrixRows_text some_row nonempty entries hbefore hbehind]
  rfl

private theorem determinant_of_rowsOf {text : String} (some_row : rows ≠ [])
    (asked : contains (lowerChars text.toList) "determinant" = true) (found : rowsOf text = .ok rows)
    (built : RationalMatrix.ofRows rows = .ok m) :
    determinant text = (orRefuse m.determinant).map fun value =>
      { steps := ["Parsed matrix", "Computed determinant"]
        answer := .value (.const value)
        certificate := some (.determinant rows) } := by
  have kept : (if rows.isEmpty then standardRows else rows) = rows := if_neg (by simpa using some_row)
  have next {α β : Type} (a : α) (g : α → Except Refusal β) : (.ok a >>= g) = g a := rfl
  rw [determinant, if_pos asked, found, orRefuse_ok, next]
  simp only [kept]
  rw [built, orRefuse_ok, next]
  cases m.determinant <;> rfl

/-- A matrix is read back from its text, with any texts without brackets around it. If the one in front asks
for a determinant, the answer is that of the matrix if it is square, and otherwise its shape is refused. -/
theorem written_rows_read_back {n : Nat} (some_row : rows ≠ []) (positive : 0 < n)
    (rectangular : ∀ row ∈ rows, row.length = n) (hbefore : '[' ∉ before.toList)
    (hbehind : '[' ∉ behind.toList) :
    ∃ m, RationalMatrix.ofRows rows = .ok m ∧ rowsOf (before ++ m.text ++ behind) = .ok rows ∧
      (contains (lowerChars before.toList) "determinant" = true →
        determinant (before ++ m.text ++ behind) =
          if rows.length = n then
            .ok {
              steps := ["Parsed matrix", "Computed determinant"]
              answer := .value (.const m.leibnizDeterminant)
              certificate := some (.determinant rows) }
          else .error ⟨.matrixShape, (Failure.notSquare rows.length n).message⟩) := by
  obtain ⟨m, built, cols, entries⟩ := exists_ofRows some_row positive rectangular
  have nonempty : ∀ row ∈ rows, row ≠ [] := by
    rintro row mem rfl
    have empty := rectangular [] mem
    simp only [List.length_nil] at empty
    omega
  have found := rowsOf_text some_row nonempty entries hbefore hbehind
  refine ⟨m, built, found, fun asks => ?_⟩
  have asked : contains (lowerChars (before ++ m.text ++ behind).toList) "determinant" = true := by
    have own : "determinant".toList <:+: Text.lowerAfter [].reverse before.toList :=
      Text.occurs_iff_infix.mp asks
    have part := Text.infix_lowerChars (by decide) (by decide) own (m.text ++ behind).toList
    apply Text.occurs_of_infix
    simpa using part
  have height : m.rows = rows.length := by simp [RationalMatrix.rows, entries]
  rw [determinant_of_rowsOf some_row asked found built]
  split_ifs with square
  · rw [(m.determinants_of_square (by omega)).1]
    rfl
  · have refused : m.determinant = .error (.notSquare rows.length n) := by
      rw [RationalMatrix.determinant, RationalMatrix.onSquare, if_neg (by omega), height, cols]
    rw [refused]
    rfl

/-- A matrix that is square and one that is not, with signs in front of their entries. -/
theorem written_rows_read_back_signs :
    (∃ m, RationalMatrix.ofRows [[2, -1], [0, 13]] = .ok m ∧ m.text = "[[2, -1], [0, 13]]" ∧
      rowsOf ("The Determinant of " ++ m.text ++ "?") = .ok [[2, -1], [0, 13]] ∧
      (determinant ("The Determinant of " ++ m.text ++ "?")).map (·.answer) = .ok (.value (.const 26))) ∧
    ∃ m, RationalMatrix.ofRows [[-7, 0]] = .ok m ∧ m.text = "[[-7, 0]]" ∧
      rowsOf ("determinant " ++ m.text ++ "") = .ok [[-7, 0]] ∧
      determinant ("determinant " ++ m.text ++ "") =
        .error ⟨.matrixShape, "determinant requires a square matrix, got 1x2"⟩ := by
  constructor
  · obtain ⟨m, built, found, answered⟩ :=
      @written_rows_read_back "The Determinant of " "?" [[2, -1], [0, 13]] 2 (by decide) (by decide) (by decide)
        (by decide) (by decide)
    cases built
    have answer := answered (by decide +kernel)
    refine ⟨_, rfl, by decide +kernel, found, ?_⟩
    rw [answer]
    decide +kernel
  · obtain ⟨m, built, found, answered⟩ :=
      @written_rows_read_back "determinant " "" [[-7, 0]] 2 (by decide) (by decide) (by decide)
        (by decide) (by decide)
    cases built
    have answer := answered (by decide +kernel)
    refine ⟨_, rfl, by decide +kernel, found, ?_⟩
    rw [answer]
    decide +kernel

end Tutor.Solve
