import Mathlib.Data.List.TakeWhile
import Tutor.Text.Blank
import Tutor.Text.Lowercase
import Tutor.Text.WordRanges

/-!
The characters of ASCII in the classes of characters that texts are cut by.
-/

set_option autoImplicit false
set_option relaxedAutoImplicit false

namespace Tutor.Text

variable {c : Char} {cs : List Char}

private theorem toNat_of_isDigit (h : c.isDigit = true) : 48 ≤ c.toNat ∧ c.toNat ≤ 57 := by
  obtain ⟨least, most⟩ := Bool.and_eq_true_iff.mp h
  exact ⟨of_decide_eq_true least, of_decide_eq_true most⟩

theorem toNat_of_isLower (h : c.isLower = true) : 97 ≤ c.toNat ∧ c.toNat ≤ 122 := by
  obtain ⟨least, most⟩ := Bool.and_eq_true_iff.mp h
  exact ⟨of_decide_eq_true least, of_decide_eq_true most⟩

theorem toNat_of_isUpper (h : c.isUpper = true) : 65 ≤ c.toNat ∧ c.toNat ≤ 90 :=
  of_decide_eq_true h

theorem isAlpha_of_isLower (h : c.isLower = true) : c.isAlpha = true :=
  Bool.or_eq_true_iff.mpr (.inr h)

theorem isBlank_of_isAlphanum (h : c.isAlphanum = true) : isBlank c = false := by
  have range : 48 ≤ c.toNat ∧ c.toNat ≤ 122 := by
    rcases Bool.or_eq_true_iff.mp h with letter | digit
    · rcases Bool.or_eq_true_iff.mp letter with upper | lower
      · have := toNat_of_isUpper upper
        omega
      · have := toNat_of_isLower lower
        omega
    · have := toNat_of_isDigit digit
      omega
  simp only [isBlank, blankRanges, Ranges.has, List.any_cons, List.any_nil, Bool.or_false, Bool.or_eq_false_iff,
    Bool.and_eq_false_iff, decide_eq_false_iff_not]
  omega

theorem isBlank_of_isDigit (h : c.isDigit = true) : isBlank c = false :=
  isBlank_of_isAlphanum (by simp [Char.isAlphanum, h])

theorem isBlank_of_isLower (h : c.isLower = true) : isBlank c = false :=
  isBlank_of_isAlphanum (by simp [Char.isAlphanum, isAlpha_of_isLower h])

theorem isDigit_of_isDigit (h : c.isDigit = true) : isDigit c = true :=
  (Ranges.has_iff _ _).mpr ⟨(0x30, 0x39), by simp [digitRanges], toNat_of_isDigit h⟩

theorem isWord_of_isAlpha {c : Char} (h : c.isAlpha = true) : isWord c = true := by
  rcases Bool.or_eq_true_iff.mp h with upper | lower
  · exact (Ranges.has_iff _ _).mpr ⟨(0x41, 0x5A), by decide +kernel, toNat_of_isUpper upper⟩
  · exact (Ranges.has_iff _ _).mpr ⟨(0x61, 0x7A), by decide +kernel, toNat_of_isLower lower⟩

theorem isAlpha_of_isBlank {c : Char} (h : isBlank c = true) : c.isAlpha = false := by
  rw [Bool.eq_false_iff]
  intro letter
  rw [isBlank_of_isAlphanum (by simp [Char.isAlphanum, letter])] at h
  cases h

/-! ### Blanks at the start of a text -/

theorem dropBlanks_cons (h : isBlank c = false) (cs : List Char) : dropBlanks (c :: cs) = c :: cs := by
  simp [dropBlanks, h]

theorem dropBlanks_of_visible (h : ∀ c ∈ cs, isBlank c = false) : dropBlanks cs = cs := by
  cases cs with
  | nil => rfl
  | cons c cs => exact dropBlanks_cons (h c List.mem_cons_self) cs

theorem trimChars_of_visible {blanks : List Char} (hblanks : ∀ c ∈ blanks, isBlank c = true)
    (h : ∀ c ∈ cs, isBlank c = false) : trimChars (blanks ++ cs) = cs := by
  have backwards : ∀ c ∈ cs.reverse, isBlank c = false := fun c hc => h c (List.mem_reverse.mp hc)
  have front : dropBlanks (blanks ++ cs) = cs := by
    rw [dropBlanks, List.dropWhile_append_of_pos hblanks]
    exact dropBlanks_of_visible h
  rw [trimChars, front, dropBlanksEnd, dropBlanks_of_visible backwards, List.reverse_reverse]

theorem exists_suffix_of_dropBlanks (cs : List Char) {rest : List Char} (stop : dropBlanks rest = rest) :
    ∃ ds, ds <:+ cs ∧ dropBlanks (cs ++ rest) = ds ++ rest := by
  induction cs with
  | nil => exact ⟨[], List.suffix_refl _, stop⟩
  | cons c cs ih =>
    cases h : isBlank c with
    | true =>
      obtain ⟨ds, part, same⟩ := ih
      have dropped : dropBlanks (c :: cs ++ rest) = dropBlanks (cs ++ rest) := List.dropWhile_cons_of_pos h
      exact ⟨ds, part.trans (List.suffix_cons c cs), dropped.trans same⟩
    | false => exact ⟨c :: cs, List.suffix_refl _, dropBlanks_cons h _⟩

/-! ### Lower case -/

def isLowered (c : Char) : Bool := c.toNat < 0x80 && !c.isUpper

theorem isLowered_of_isDigit (h : c.isDigit = true) : isLowered c = true := by
  have range := toNat_of_isDigit h
  have upper : ¬ c.isUpper = true := fun upper => by
    have := toNat_of_isUpper upper
    omega
  simp [isLowered, upper]
  omega

theorem isLowered_of_isLower (h : c.isLower = true) : isLowered c = true := by
  have range := toNat_of_isLower h
  have upper : ¬ c.isUpper = true := fun upper => by
    have := toNat_of_isUpper upper
    omega
  simp [isLowered, upper]
  omega

private theorem toLower_of_isLowered (h : isLowered c = true) : c.toLower = c := by
  have notUpper : c.isUpper = false := by simpa using (Bool.and_eq_true_iff.mp h).2
  exact dif_neg (of_decide_eq_false notUpper)

theorem lowerChars_eq_self (h : ∀ c ∈ cs, isLowered c = true) : lowerChars cs = cs := by
  have ascii : ∀ c ∈ cs, c.toNat < 0x80 := fun c hc =>
    of_decide_eq_true (Bool.and_eq_true_iff.mp (h c hc)).1
  rw [lowerChars, lowerAfter_ascii [] cs ascii, List.map_congr_left fun c hc => toLower_of_isLowered (h c hc),
    List.map_id']

end Tutor.Text
