import Mathlib.Data.List.Infix
import Tutor.Text.Lowercase

/-!
Parts of the lower-case form of a text. Only a sigma looks at what stands around it, so a word without
one that occurs in the lower-case form of a part of a text occurs in that of the text.
-/

set_option autoImplicit false
set_option relaxedAutoImplicit false

namespace Tutor.Text

variable {cs ds part : List Char}

/-- A character in which the two lower-case forms of the sigma are one. -/
def mergeSigma (c : Char) : Char := if c = 'ς' then 'σ' else c

private theorem mergeSigma_lowerSigma (before after : List Char) : mergeSigma (lowerSigma before after) = 'σ' := by
  unfold lowerSigma
  split <;> decide

private theorem exists_lowerAfter_append (before cs ds : List Char) :
    ∃ lowered, lowerAfter before (cs ++ ds) = lowered ++ lowerAfter (cs.reverse ++ before) ds ∧
      lowered.map mergeSigma = (lowerAfter before cs).map mergeSigma := by
  induction cs generalizing before with
  | nil => exact ⟨[], rfl, rfl⟩
  | cons c cs ih =>
    obtain ⟨lowered, whole, same⟩ := ih (c :: before)
    have reversed : (c :: cs).reverse ++ before = cs.reverse ++ c :: before := by simp
    rw [List.cons_append, lowerAfter, lowerAfter, whole, reversed]
    split_ifs
    · refine ⟨lowerSigma before (cs ++ ds) :: lowered, rfl, ?_⟩
      simp [same, mergeSigma_lowerSigma]
    · refine ⟨lowerChar c ++ lowered, by simp, ?_⟩
      simp [same]

private theorem map_mergeSigma_eq_iff (final : 'ς' ∉ part) (inner : 'σ' ∉ part) :
    cs.map mergeSigma = part.map mergeSigma ↔ cs = part := by
  have each {c d : Char} (final : d ≠ 'ς') (inner : d ≠ 'σ') : mergeSigma c = mergeSigma d ↔ c = d := by
    unfold mergeSigma
    split_ifs with same
    · exact iff_of_false (Ne.symm inner) (same ▸ Ne.symm final)
    · rfl
  induction part generalizing cs with
  | nil => simp
  | cons d part ih =>
    simp only [List.mem_cons, not_or] at final inner
    cases cs with
    | nil => simp
    | cons c cs =>
      simp only [List.map_cons, List.cons.injEq, ih final.2 inner.2,
        each (Ne.symm final.1) (Ne.symm inner.1)]

theorem infix_lowerChars (final : 'ς' ∉ part) (inner : 'σ' ∉ part) {before : List Char}
    (h : part <:+: lowerAfter before.reverse cs) (behind : List Char) :
    part <:+: lowerChars (before ++ cs ++ behind) := by
  obtain ⟨front, start, -⟩ := exists_lowerAfter_append [] before (cs ++ behind)
  obtain ⟨lowered, middle, same⟩ := exists_lowerAfter_append (before.reverse ++ []) cs behind
  obtain ⟨x, y, split⟩ := h
  rw [List.append_nil] at start middle same
  rw [← split, List.map_append, List.map_append] at same
  obtain ⟨xs, ys, rfl, xs_part, -⟩ := List.map_eq_append_iff.mp same
  obtain ⟨xs, found, rfl, -, found_part⟩ := List.map_eq_append_iff.mp xs_part
  obtain rfl := (map_mergeSigma_eq_iff final inner).mp found_part
  rw [lowerChars, List.append_assoc, start, middle]
  exact ⟨front ++ xs, ys ++ lowerAfter (cs.reverse ++ before.reverse) behind, by simp⟩

end Tutor.Text
