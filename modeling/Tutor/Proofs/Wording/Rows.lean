import Tutor.Proofs.Number.Digits
import Tutor.Proofs.Text.Ascii
import Tutor.Proofs.Text.Search
import Tutor.RationalMatrix.Basic
import Tutor.Wording.Clause

/-!
The rows of a matrix in a text. A matrix with integer entries is written as its rows in brackets, in one
more pair of brackets. Only the inner ones enclose nothing but row characters, so the rows are found, and
their entries are read as they were.
-/

set_option autoImplicit false
set_option relaxedAutoImplicit false

namespace Tutor.Wording

open Number (fractionText integerText)
open Text (isBlank)

variable {cs ds body : List Char}

private theorem isRowChar_of_mem_integerText {n : Int} {c : Char} (h : c ∈ (integerText n).toList) :
    isRowChar c = true := by
  rcases Number.mem_integerText h with rfl | digit
  · decide
  · simp [isRowChar, digit]

private theorem isRowChar_opening : isRowChar '[' = false := by decide +kernel

private theorem bracketed_append_of_notMem (h : '[' ∉ cs) (ds : List Char) : bracketed (cs ++ ds) = bracketed ds := by
  induction cs with
  | nil => rfl
  | cons c cs ih =>
    obtain ⟨other, later⟩ := List.ne_and_not_mem_of_not_mem_cons h
    simp only [List.cons_append, bracketed, Ne.symm other, decide_false, Bool.false_and,
      Bool.false_eq_true, if_false]
    exact ih later

private theorem bracketed_of_notMem (h : '[' ∉ cs) : bracketed cs = [] := by
  simpa [bracketed] using bracketed_append_of_notMem h []

private theorem bracketed_outer (cs : List Char) : bracketed ('[' :: '[' :: cs) = bracketed ('[' :: cs) := by
  rw [bracketed]
  simp [isRowChar_opening]

private theorem bracketed_row (nonempty : body ≠ []) (h : ∀ c ∈ body, isRowChar c = true) (cs : List Char) :
    bracketed ('[' :: (body ++ ']' :: cs)) = body :: bracketed cs := by
  have stop : isRowChar ']' = false := by decide +kernel
  have taken : (body ++ ']' :: cs).takeWhile isRowChar = body := by
    rw [List.takeWhile_append_of_pos h]
    simp [stop]
  have dropped : (body ++ ']' :: cs).dropWhile isRowChar = ']' :: cs := by
    rw [List.dropWhile_append_of_pos h]
    simp [stop]
  have inside : '[' ∉ body ++ [']'] := by
    intro mem
    rcases List.mem_append.mp mem with mem | mem
    · have row := h _ mem
      rw [isRowChar_opening] at row
      cases row
    · simp at mem
  have behind := bracketed_append_of_notMem inside cs
  rw [List.append_assoc, List.singleton_append] at behind
  rw [bracketed]
  simp [taken, dropped, nonempty, behind]

def rowBody (row : List Int) : List Char := [',', ' '].intercalate (row.map fun n => (integerText n).toList)

private theorem rowBody_ne_nil {row : List Int} (nonempty : row ≠ []) : rowBody row ≠ [] := by
  obtain ⟨n, others, rfl⟩ := List.exists_cons_of_ne_nil nonempty
  have written : (integerText n).toList ≠ [] := by
    intro none
    have read := Number.readInteger_integerText n
    rw [none] at read
    cases read
  cases others <;> simp [rowBody, written]

private theorem isRowChar_of_mem_rowBody {row : List Int} : ∀ c ∈ rowBody row, isRowChar c = true := by
  induction row with
  | nil => simp [rowBody]
  | cons n others ih =>
    have first : ∀ c ∈ (integerText n).toList, isRowChar c = true := fun _ => isRowChar_of_mem_integerText
    cases others with
    | nil => simpa [rowBody] using first
    | cons next others =>
      have split : rowBody (n :: next :: others) =
          (integerText n).toList ++ ',' :: ' ' :: rowBody (next :: others) := by simp [rowBody]
      rw [split]
      have comma : isRowChar ',' = true := by decide
      have blank : isRowChar ' ' = true := by decide
      exact List.forall_mem_append.mpr
        ⟨first, List.forall_mem_cons.mpr ⟨comma, List.forall_mem_cons.mpr ⟨blank, ih⟩⟩⟩

private theorem mapM_map_eq_ok {α β ε : Type} {write : α → β} {read : β → Except ε α} {items : List α}
    (h : ∀ a ∈ items, read (write a) = .ok a) : (items.map write).mapM read = .ok items := by
  induction items with
  | nil => rfl
  | cons a items ih =>
    obtain ⟨first, others⟩ := List.forall_mem_cons.mp h
    rw [List.map_cons, List.mapM_cons, first, ih others]
    rfl

private theorem readEntry_integerText (blanks : List Char) (h : ∀ c ∈ blanks, isBlank c = true) (n : Int) :
    readEntry (blanks ++ (integerText n).toList) = .ok n := by
  have visible : ∀ c ∈ (integerText n).toList, isBlank c = false := by
    intro c hc
    rcases Number.mem_integerText hc with rfl | digit
    · decide
    · exact Text.isBlank_of_isDigit digit
  rw [readEntry, Text.trimChars_of_visible h visible, Number.readInteger_integerText]
  rfl

private theorem comma_notMem_integerText (n : Int) : ',' ∉ (integerText n).toList := by
  intro mem
  rcases Number.mem_integerText mem with sign | digit
  · cases sign
  · cases digit

private theorem readEntries_rowBody {row : List Int} (nonempty : row ≠ []) :
    (Text.pieces ',' (rowBody row)).mapM readEntry = .ok row := by
  obtain ⟨n, others, rfl⟩ := List.exists_cons_of_ne_nil nonempty
  have split : Text.pieces ',' (rowBody (n :: others)) =
      (integerText n).toList :: others.map fun n => ' ' :: (integerText n).toList := by
    have later : ∀ piece ∈ others.map fun n => (integerText n).toList, ',' ∉ piece := by
      simp [comma_notMem_integerText]
    rw [rowBody, List.map_cons, Text.pieces_intercalate (by decide) (comma_notMem_integerText n) later,
      List.map_map]
    rfl
  have first : readEntry (integerText n).toList = .ok n := readEntry_integerText [] (by simp) n
  have later : ∀ m ∈ others, readEntry (' ' :: (integerText m).toList) = .ok m := fun m _ =>
    readEntry_integerText [' '] (List.forall_mem_singleton.mpr (by decide)) m
  rw [split, List.mapM_cons, first, mapM_map_eq_ok later]
  rfl

def rowChars (row : List Int) : List Char := '[' :: (rowBody row ++ [']'])

def rowsBody (rows : List (List Int)) : List Char := [',', ' '].intercalate (rows.map rowChars)

private theorem bracketed_rowsBody {rows : List (List Int)} (nonempty : ∀ row ∈ rows, row ≠ []) (rest : List Char) :
    bracketed (rowsBody rows ++ rest) = rows.map rowBody ++ bracketed rest := by
  induction rows with
  | nil => simp [rowsBody]
  | cons row others ih =>
    obtain ⟨here, later⟩ := List.forall_mem_cons.mp nonempty
    have found := bracketed_row (rowBody_ne_nil here) isRowChar_of_mem_rowBody
    cases others with
    | nil => simpa [rowsBody, rowChars] using found rest
    | cons next others =>
      have split : rowsBody (row :: next :: others) ++ rest =
          '[' :: (rowBody row ++ ']' :: ([',', ' '] ++ (rowsBody (next :: others) ++ rest))) := by
        simp [rowsBody, rowChars]
      rw [split, found, bracketed_append_of_notMem (by decide), ih later]
      rfl

private theorem toList_rowText (cells : List String) : (RationalMatrix.rowText cells).toList =
    '[' :: ([',', ' '].intercalate (cells.map String.toList) ++ [']']) := by
  simp [RationalMatrix.rowText]

private theorem toList_text {rows : List (List Int)} {m : RationalMatrix}
    (entries : m.entries = rows.map fun row => row.map fun n : Int => (n : Rat)) :
    m.text.toList = '[' :: (rowsBody rows ++ [']']) := by
  rw [RationalMatrix.text, entries, toList_rowText]
  simp only [List.map_map, Function.comp_def, toList_rowText, Number.fractionText_intCast]
  rfl

theorem matrixRows_text {rows : List (List Int)} {m : RationalMatrix} (some_row : rows ≠ [])
    (nonempty : ∀ row ∈ rows, row ≠ [])
    (entries : m.entries = rows.map fun row => row.map fun n : Int => (n : Rat))
    (hcs : '[' ∉ cs) (hds : '[' ∉ ds) : matrixRows (cs ++ m.text.toList ++ ds) = .ok rows := by
  have closing : '[' ∉ ']' :: ds := by simp [hds]
  have inner : bracketed (rowsBody rows ++ ']' :: ds) = rows.map rowBody := by
    rw [bracketed_rowsBody nonempty, bracketed_of_notMem closing, List.append_nil]
  obtain ⟨rest, opened⟩ : ∃ rest, rowsBody rows ++ ']' :: ds = '[' :: rest := by
    obtain ⟨first, others, rfl⟩ := List.exists_cons_of_ne_nil some_row
    cases others <;> exact ⟨_, rfl⟩
  rw [matrixRows, toList_text entries, List.append_assoc, bracketed_append_of_notMem hcs, List.cons_append,
    List.append_assoc, List.singleton_append, opened, bracketed_outer, ← opened, inner]
  exact mapM_map_eq_ok fun row mem => readEntries_rowBody (nonempty row mem)

end Tutor.Wording
