import Tutor.Proofs.Number.Digits
import Tutor.Proofs.Text.Ascii
import Tutor.Wording.Clause

/-!
Points that are written as decimals. Such a text is found up to its end, and it is read as the number that
its digits stand for.
-/

set_option autoImplicit false
set_option relaxedAutoImplicit false

namespace Tutor.Wording

open Number (digitsValue_eq_ofDigitChars readDecimal readDecimal_of_digits readDecimal_of_point)
open Text (dropBlanks dropBlanks_cons isBlank)

inductive Sign where
  | absent
  | plus
  | minus
  deriving DecidableEq

namespace Sign

def chars : Sign → List Char
  | .absent => []
  | .plus => ['+']
  | .minus => ['-']

def factor : Sign → Rat
  | .absent | .plus => 1
  | .minus => -1

end Sign

/-- A decimal as it is written: digits, with or without a sign and a fraction. -/
structure Decimal where
  sign : Sign
  whole : List Char
  fraction : Option (List Char)
  whole_ne_nil : whole ≠ []
  whole_digits : ∀ c ∈ whole, c.isDigit = true
  fraction_ne_nil : ∀ ds ∈ fraction, ds ≠ []
  fraction_digits : ∀ ds ∈ fraction, ∀ c ∈ ds, c.isDigit = true

namespace Decimal

def unsigned (t : Decimal) : List Char :=
  match t.fraction with
  | none => t.whole
  | some ds => t.whole ++ '.' :: ds

def chars (t : Decimal) : List Char := t.sign.chars ++ t.unsigned

def text (t : Decimal) : String := String.ofList t.chars

/-- The number that the digits stand for; those of the fraction count by their place behind the point. -/
def magnitude (t : Decimal) : Rat :=
  match t.fraction with
  | none => Nat.ofDigitChars 10 t.whole 0
  | some ds => Nat.ofDigitChars 10 t.whole 0 + Nat.ofDigitChars 10 ds 0 / 10 ^ ds.length

def value (t : Decimal) : Rat := t.sign.factor * t.magnitude

/-! ### The text of a decimal -/

private theorem exists_cons_unsigned (t : Decimal) : ∃ c ds, t.unsigned = c :: ds ∧ c.isDigit = true := by
  obtain ⟨c, ds, whole⟩ := List.exists_cons_of_ne_nil t.whole_ne_nil
  have digit : c.isDigit = true := t.whole_digits c (by simp [whole])
  unfold unsigned
  cases t.fraction with
  | none => exact ⟨c, ds, whole, digit⟩
  | some fraction => exact ⟨c, ds ++ '.' :: fraction, by simp [whole], digit⟩

theorem mem_chars (t : Decimal) {c : Char} (h : c ∈ t.chars) : c.isDigit = true ∨ c ∈ ['.', '+', '-'] := by
  rw [chars, List.mem_append] at h
  rcases h with sign | digits
  · cases same : t.sign <;> simp_all [Sign.chars]
  · unfold unsigned at digits
    cases written : t.fraction with
    | none =>
      rw [written] at digits
      exact .inl (t.whole_digits c digits)
    | some ds =>
      simp only [written, List.mem_append, List.mem_cons] at digits
      rcases digits with whole | rfl | fraction
      · exact .inl (t.whole_digits c whole)
      · exact .inr (by decide)
      · exact .inl (t.fraction_digits ds written c fraction)

private theorem isBlank_of_mem_chars (t : Decimal) {c : Char} (h : c ∈ t.chars) : isBlank c = false := by
  rcases t.mem_chars h with digit | sign
  · exact Text.isBlank_of_isDigit digit
  · simp only [List.mem_cons, List.not_mem_nil, or_false] at sign
    rcases sign with rfl | rfl | rfl <;> decide

theorem dropBlanks_chars (t : Decimal) : dropBlanks t.chars = t.chars :=
  Text.dropBlanks_of_visible fun _ => t.isBlank_of_mem_chars

private theorem trimChars_chars (t : Decimal) : Text.trimChars t.chars = t.chars :=
  Text.trimChars_of_visible (List.forall_mem_nil _) fun _ => t.isBlank_of_mem_chars

/-! ### Finding a decimal -/

private theorem splitSign_chars (t : Decimal) : splitSign t.chars = (t.sign.chars, t.unsigned) := by
  unfold chars
  cases t.sign with
  | plus | minus => rfl
  | absent =>
    obtain ⟨c, ds, start, digit⟩ := t.exists_cons_unsigned
    rw [Sign.chars, List.nil_append, start]
    unfold splitSign
    split
    · rename_i same
      cases same
      cases digit
    · rename_i same
      cases same
      cases digit
    · rfl

private theorem digits?_append {run rest : List Char} (nonempty : run ≠ []) (h : ∀ c ∈ run, c.isDigit = true)
    (stop : ∀ c ∈ rest.head?, Text.isDigit c = false) : digits? (run ++ rest) = some (run, rest) := by
  have all : ∀ c ∈ run, Text.isDigit c = true := fun c hc => Text.isDigit_of_isDigit (h c hc)
  have ended : rest.takeWhile Text.isDigit = [] ∧ rest.dropWhile Text.isDigit = rest := by
    cases rest with
    | nil => exact ⟨rfl, rfl⟩
    | cons c rest => simp [stop c rfl]
  simp [digits?, List.takeWhile_append_of_pos all, List.dropWhile_append_of_pos all, ended, nonempty]

theorem decimalText?_chars (t : Decimal) : decimalText? t.chars = some (t.chars, []) := by
  rw [decimalText?, splitSign_chars, chars, unsigned]
  cases written : t.fraction with
  | none =>
    have found : digits? t.whole = some (t.whole, []) := by
      have alone : digits? (t.whole ++ []) = some (t.whole, []) :=
        digits?_append t.whole_ne_nil t.whole_digits (by simp)
      rwa [List.append_nil] at alone
    simp [found]
  | some ds =>
    have found : digits? (t.whole ++ '.' :: ds) = some (t.whole, '.' :: ds) := by
      apply digits?_append t.whole_ne_nil t.whole_digits
      rintro c ⟨⟩
      decide
    have behind : digits? ds = some (ds, []) := by
      have alone : digits? (ds ++ []) = some (ds, []) :=
        digits?_append (t.fraction_ne_nil ds written) (t.fraction_digits ds written) (by simp)
      rwa [List.append_nil] at alone
    simp [found, behind]

/-! ### Reading a decimal -/

private theorem readDecimal_unsigned (t : Decimal) : readDecimal t.unsigned = .ok t.magnitude := by
  unfold unsigned magnitude
  cases written : t.fraction with
  | none => exact readDecimal_of_digits t.whole_ne_nil t.whole_digits
  | some ds =>
    simp only [← digitsValue_eq_ofDigitChars]
    exact readDecimal_of_point t.whole_ne_nil t.whole_digits (t.fraction_digits ds written)

theorem readPoint?_chars (t : Decimal) : readPoint? t.chars = some t.value := by
  have read := t.readDecimal_unsigned
  rw [readPoint?, trimChars_chars, chars, value]
  cases t.sign with
  | plus =>
    show (readDecimal t.unsigned).toOption = _
    rw [read]
    simp [Except.toOption, Sign.factor]
  | minus =>
    show (readDecimal t.unsigned).toOption.map (- ·) = _
    rw [read]
    simp [Except.toOption, Sign.factor]
  | absent =>
    obtain ⟨c, ds, start, digit⟩ := t.exists_cons_unsigned
    rw [Sign.chars, List.nil_append]
    rw [start] at read ⊢
    unfold Number.readSignedDecimal?
    split
    · rename_i same
      cases same
      cases digit
    · rename_i same
      cases same
      cases digit
    · rw [read]
      simp [Except.toOption, Sign.factor]

end Decimal

end Tutor.Wording
