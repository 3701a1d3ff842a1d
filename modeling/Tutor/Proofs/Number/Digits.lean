import Mathlib.Algebra.Field.Rat
import Mathlib.Data.List.TakeWhile
import Mathlib.Tactic.FieldSimp
import Mathlib.Tactic.NormNum
import Tutor.Number.Fraction
import Tutor.Number.Literal

/-!
Digit strings and the numbers that they stand for.
-/

set_option autoImplicit false
set_option relaxedAutoImplicit false

namespace Tutor.Number

theorem digitsValue_eq_ofDigitChars (digits : List Char) :
    digitsValue digits = Nat.ofDigitChars 10 digits 0 :=
  Nat.ofDigitChars_eq_foldl.symm

theorem digitsValue_toDigits (n : Nat) : digitsValue (Nat.toDigits 10 n) = n := by
  rw [digitsValue_eq_ofDigitChars, Nat.ofDigitChars_ten_toDigits]

theorem isDigit_of_mem_toDigits {n : Nat} {c : Char} (h : c ∈ Nat.toDigits 10 n) : c.isDigit = true :=
  Nat.isDigit_of_mem_toDigits (by decide) (by decide) h

theorem digitsValue_zeros_append (k : Nat) (digits : List Char) :
    digitsValue (List.replicate k '0' ++ digits) = digitsValue digits := by
  rw [digitsValue_eq_ofDigitChars, Nat.ofDigitChars_append, Nat.ofDigitChars_replicate_zero, Nat.mul_zero,
    digitsValue_eq_ofDigitChars]

private theorem digitsValue_append (a b : List Char) :
    digitsValue (a ++ b) = 10 ^ b.length * digitsValue a + digitsValue b := by
  simp only [digitsValue_eq_ofDigitChars, Nat.ofDigitChars_append]
  exact Nat.ofDigitChars_eq_ofDigitChars_zero

/-! ### Reading digits -/

variable {digits whole fraction : List Char}

private theorem ne_of_isDigit {c d : Char} (hc : c.isDigit = true) (hd : d.isDigit = false) : c ≠ d := by
  rintro rfl
  rw [hc] at hd
  cases hd

private theorem readNatural_of_digits (nonempty : digits ≠ []) (h : ∀ c ∈ digits, c.isDigit = true) :
    readNatural digits = .ok (digitsValue digits) := by
  have no_plus : dropPlus digits = digits := by
    unfold dropPlus
    split
    · rfl
    · cases h '+' List.mem_cons_self
    · rfl
  have no_gap : digits.head? ≠ some '_' := fun gap => by
    cases h '_' (List.mem_of_head? gap)
  have all_kept : digits.filter (· != '_') = digits := by
    rw [List.filter_eq_self]
    intro c hc
    simpa using ne_of_isDigit (h c hc) (d := '_') (by decide)
  have all_digits : digits.all Char.isDigit = true := List.all_eq_true.mpr h
  simp [readNatural, no_plus, nonempty, no_gap, all_kept, all_digits]

private theorem readInteger_of_digits (nonempty : digits ≠ []) (h : ∀ c ∈ digits, c.isDigit = true) :
    readInteger digits = .ok (digitsValue digits : Int) := by
  unfold readInteger
  split
  · cases h '-' List.mem_cons_self
  · cases h '-' List.mem_cons_self
  · rw [readNatural_of_digits nonempty h]
    rfl

theorem readDecimal_of_digits (nonempty : digits ≠ []) (h : ∀ c ∈ digits, c.isDigit = true) :
    readDecimal digits = .ok (digitsValue digits : Rat) := by
  have no_point : digits.dropWhile (· != '.') = [] := by
    rw [List.dropWhile_eq_nil_iff]
    intro c hc
    simpa using ne_of_isDigit (h c hc) (d := '.') (by decide)
  simp only [readDecimal, no_point, readInteger_of_digits nonempty h]
  exact congrArg Except.ok (Int.cast_natCast _)

theorem readDecimal_of_point (nonempty : whole ≠ []) (h : ∀ c ∈ whole, c.isDigit = true)
    (hf : ∀ c ∈ fraction, c.isDigit = true) : readDecimal (whole ++ '.' :: fraction) =
      .ok (digitsValue whole + digitsValue fraction / 10 ^ fraction.length : Rat) := by
  have before : ∀ c ∈ whole, (c != '.') = true := fun c hc => by
    simpa using ne_of_isDigit (h c hc) (d := '.') (by decide)
  have dropped : (whole ++ '.' :: fraction).dropWhile (· != '.') = '.' :: fraction := by
    rw [List.dropWhile_append_of_pos before]
    simp
  have taken : (whole ++ '.' :: fraction).takeWhile (· != '.') = whole := by
    rw [List.takeWhile_append_of_pos before]
    simp
  have digits : readInteger (whole ++ fraction) = .ok (digitsValue (whole ++ fraction) : Int) :=
    readInteger_of_digits (by simp [nonempty]) (List.forall_mem_append.mpr ⟨h, hf⟩)
  simp only [readDecimal, dropped, taken, digits]
  apply congrArg Except.ok
  dsimp only
  rw [Rat.mkRat_eq_div, digitsValue_append]
  have scale : ((Nat.pow 10 fraction.length : Nat) : Rat) = 10 ^ fraction.length := Nat.cast_pow 10 _
  have positive : (10 : Rat) ^ fraction.length ≠ 0 := by positivity
  push_cast
  rw [scale]
  field_simp

/-! ### Written integers -/

theorem readInteger_integerText (n : Int) : readInteger (integerText n).toList = .ok n := by
  have nonempty : Nat.toDigits 10 n.natAbs ≠ [] := Nat.toDigits_ne_nil
  have digits : ∀ c ∈ Nat.toDigits 10 n.natAbs, c.isDigit = true := fun _ => isDigit_of_mem_toDigits
  unfold integerText
  split_ifs with negative
  · have start : ∀ rest, Nat.toDigits 10 n.natAbs ≠ '+' :: rest := by
      intro rest plus
      cases digits '+' (plus ▸ List.mem_cons_self)
    have signed : ("-" ++ naturalText n.natAbs).toList = '-' :: Nat.toDigits 10 n.natAbs := by
      simp [naturalText]
    rw [signed, readInteger.eq_2 _ start, readNatural_of_digits nonempty digits, digitsValue_toDigits]
    have value : -(n.natAbs : Int) = n := by omega
    exact congrArg Except.ok value
  · rw [naturalText, String.toList_ofList, readInteger_of_digits nonempty digits, digitsValue_toDigits]
    have value : (n.natAbs : Int) = n := by omega
    exact congrArg Except.ok value

theorem mem_integerText {n : Int} {c : Char} (h : c ∈ (integerText n).toList) : c = '-' ∨ c.isDigit = true := by
  unfold integerText at h
  split_ifs at h
  · simp only [naturalText, String.toList_append, String.toList_ofList, List.mem_append] at h
    rcases h with sign | digit
    · exact .inl (by simpa using sign)
    · exact .inr (isDigit_of_mem_toDigits digit)
  · rw [naturalText, String.toList_ofList] at h
    exact .inr (isDigit_of_mem_toDigits h)

theorem fractionText_intCast (n : Int) : fractionText n = integerText n := by
  simp [fractionText]

end Tutor.Number
