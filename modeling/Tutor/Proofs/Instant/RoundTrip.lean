import Mathlib.Data.List.TakeWhile
import Mathlib.Data.Nat.Digits.Defs
import Tutor.Instant.Reader
import Tutor.Proofs.Number.Digits
import Tutor.Proofs.Text.Ascii

/-!
The text of an instant is read as that instant: every part is read up to the sign that stands behind it.
-/

set_option autoImplicit false
set_option relaxedAutoImplicit false

namespace Tutor.Instant

open Number (digitsValue digitsValue_toDigits digitsValue_zeros_append isDigit_of_mem_toDigits)
open Text (after? dropBlanks dropBlanks_cons isBlank isBlank_of_isDigit)

variable {cs rest : List Char} {width n : Nat}

/-! ### Digit strings of a fixed width -/

private theorem toList_padded (width n : Nat) : (padded width n).toList =
    List.replicate (width - (Nat.toDigits 10 n).length) '0' ++ Nat.toDigits 10 n := by
  simp [padded, Number.naturalText]

private theorem isDigit_of_mem_padded {c : Char} (h : c ∈ (padded width n).toList) : c.isDigit = true := by
  rw [toList_padded, List.mem_append] at h
  rcases h with zero | digit
  · rw [List.eq_of_mem_replicate zero]
    decide
  · exact isDigit_of_mem_toDigits digit

private theorem padded_ne_nil (width n : Nat) : (padded width n).toList ≠ [] := by
  simp [toList_padded, Nat.toDigits_ne_nil]

private theorem digitsValue_padded (width n : Nat) : digitsValue (padded width n).toList = n := by
  rw [toList_padded, digitsValue_zeros_append, digitsValue_toDigits]

private theorem length_padded (positive : 0 < width) (fits : n < 10 ^ width) :
    (padded width n).toList.length = width := by
  have short := Nat.toDigits_length 10 n width positive fits
  rw [toList_padded, List.length_append, List.length_replicate]
  omega

/-- Digits start a text, and no digit follows them as far as digits are looked for. -/
structure Leads (width : Nat) (digits rest : List Char) : Prop where
  nonempty : digits ≠ []
  chars : ∀ c ∈ digits, c.isDigit = true
  fits : digits.length ≤ width
  stops : digits.length = width ∨ ∀ c ∈ rest.head?, c.isDigit = false

private theorem leads_padded (positive : 0 < width) (fits : n < 10 ^ width) (rest : List Char) :
    Leads width (padded width n).toList rest where
  nonempty := padded_ne_nil width n
  chars := fun _ => isDigit_of_mem_padded
  fits := (length_padded positive fits).le
  stops := .inl (length_padded positive fits)

theorem Leads.takeWhile {digits : List Char} (h : Leads width digits rest) :
    ((digits ++ rest).take width).takeWhile Char.isDigit = digits := by
  rw [List.take_append, List.take_of_length_le h.fits, List.takeWhile_append_of_pos h.chars]
  apply List.append_right_eq_self.mpr
  rcases h.stops with full | stop
  · simp [full]
  · cases rest with
    | nil => simp
    | cons c rest =>
      cases width - digits.length with
      | zero => rfl
      | succ k => simp [stop c rfl]

theorem Leads.digits? {digits : List Char} (h : Leads width digits rest) :
    digits? width (digits ++ rest) = some (digitsValue digits, rest) := by
  simp [Instant.digits?, h.takeWhile, h.nonempty]

/-! ### No blanks stand before the parts -/

private theorem dropBlanks_append {digits : List Char} (nonempty : digits ≠ [])
    (h : ∀ c ∈ digits, c.isDigit = true) (rest : List Char) :
    dropBlanks (digits ++ rest) = digits ++ rest := by
  cases digits with
  | nil => contradiction
  | cons c digits => exact dropBlanks_cons (isBlank_of_isDigit (h c List.mem_cons_self)) _

private theorem number?_padded (positive : 0 < width) (fits : n < 10 ^ width) (rest : List Char) :
    number? width ((padded width n).toList ++ rest) = some (n, rest) := by
  have leads := leads_padded positive fits rest
  rw [number?, dropBlanks_append leads.nonempty leads.chars, leads.digits?, digitsValue_padded]

/-! ### The parts -/

private theorem year?_of_leads {digits : List Char} (h : Leads 4 digits rest) :
    year? (digits ++ rest) = some ((digitsValue digits : Int), rest) := by
  have whole := h.digits?
  have start := dropBlanks_append h.nonempty h.chars rest
  cases digits with
  | nil => exact absurd rfl h.nonempty
  | cons c digits =>
    have digit := h.chars c List.mem_cons_self
    rw [year?, start]
    split
    · rename_i same
      cases same
      cases digit
    · rename_i same
      cases same
      cases digit
    · rw [whole, Option.map_some]

private theorem year?_minus (cs : List Char) :
    year? ('-' :: cs) = (digits? cs.length cs).map fun (n, final) => (-(n : Int), final) := by
  rw [year?, dropBlanks_cons (by decide)]
  rfl

private theorem year?_plus (cs : List Char) :
    year? ('+' :: cs) = (digits? cs.length cs).map fun (n, final) => ((n : Int), final) := by
  rw [year?, dropBlanks_cons (by decide)]
  rfl

private theorem year?_yearText {year : Int} (rest : List Char) :
    year? ((yearText year).toList ++ '-' :: rest) = some (year, '-' :: rest) := by
  have signed : Leads ((padded 4 year.natAbs).toList ++ '-' :: rest).length (padded 4 year.natAbs).toList
      ('-' :: rest) := by
    refine ⟨padded_ne_nil _ _, fun _ => isDigit_of_mem_padded, by simp, .inr ?_⟩
    rintro c ⟨⟩
    decide
  unfold yearText
  dsimp only
  split
  · rename_i plain
    have fits : year.natAbs < 10 ^ 4 := by omega
    rw [year?_of_leads (leads_padded (by decide) fits _), digitsValue_padded, Int.natAbs_of_nonneg plain.1]
  split
  · rename_i negative
    have sign : ("-" ++ padded 4 year.natAbs).toList = '-' :: (padded 4 year.natAbs).toList := by simp
    rw [sign, List.cons_append, year?_minus, signed.digits?, Option.map_some, digitsValue_padded]
    simp only [Option.some.injEq, Prod.mk.injEq, and_true]
    omega
  · rename_i positive
    have sign : ("+" ++ padded 4 year.natAbs).toList = '+' :: (padded 4 year.natAbs).toList := by simp
    rw [sign, List.cons_append, year?_plus, signed.digits?, Option.map_some, digitsValue_padded]
    simp only [Option.some.injEq, Prod.mk.injEq, and_true]
    omega

private theorem after?_dropBlanks {c : Char} {sign : String} (one : sign.toList = [c]) (h : isBlank c = false)
    (rest : List Char) : after? sign (dropBlanks (c :: rest)) = some rest := by
  rw [dropBlanks_cons h]
  simp [after?, one]

private theorem daysInMonth_le (year : Int) (month : Nat) : daysInMonth year month ≤ 31 := by
  unfold daysInMonth
  split_ifs <;> decide

private theorem date?_text (date : Date) (rest : List Char) :
    date? ((yearText date.year).toList ++ '-' :: ((padded 2 date.month).toList ++
      '-' :: ((padded 2 date.day).toList ++ rest))) = some (date, rest) := by
  have month : date.month < 10 ^ 2 := by
    have := date.month_mem
    omega
  have day : date.day < 10 ^ 2 := by
    have := date.day_mem
    have := daysInMonth_le date.year date.month
    omega
  have dash (rest : List Char) : after? "-" (dropBlanks ('-' :: rest)) = some rest :=
    after?_dropBlanks rfl (by decide) rest
  simp only [date?, year?_yearText, Option.bind_eq_bind, Option.bind_some, dash,
    number?_padded (by decide : 0 < 2) month, number?_padded (by decide : 0 < 2) day, Date.ofParts?_self]
  rfl

private theorem fraction?_padded (positive : 0 < width) (short : width ≤ 9) (fits : n < 10 ^ width) :
    fraction? (("." ++ padded width n).toList ++ ['Z']) = some (n * Nat.pow 10 (9 - width), ['Z']) := by
  have leads : Leads 9 (padded width n).toList ['Z'] := by
    refine ⟨padded_ne_nil _ _, fun _ => isDigit_of_mem_padded, (length_padded positive fits).trans_le short,
      .inr ?_⟩
    rintro c ⟨⟩
    decide
  have behind : ((padded width n).toList ++ ['Z']).dropWhile Char.isDigit = ['Z'] := by
    rw [List.dropWhile_append_of_pos leads.chars]
    rfl
  have written : ("." ++ padded width n).toList ++ ['Z'] = '.' :: ((padded width n).toList ++ ['Z']) := by simp
  rw [written, fraction?, leads.takeWhile, behind, if_neg (by simp [leads.nonempty]),
    length_padded positive fits, digitsValue_padded]
  rfl

private theorem fraction?_fractionText {nanosecond : Nat} (h : nanosecond < nanosPerSecond) :
    fraction? ((fractionText nanosecond).toList ++ ['Z']) = some (nanosecond, ['Z']) := by
  unfold nanosPerSecond at h
  have scaled {k : Nat} (whole : nanosecond % k = 0) : nanosecond / k * k = nanosecond :=
    Nat.div_mul_cancel (Nat.dvd_of_mod_eq_zero whole)
  unfold fractionText
  split
  · subst_vars
    rfl
  split
  · rename_i millis
    rw [fraction?_padded (by decide) (by decide) (by omega)]
    exact congrArg (fun n => some (n, ['Z'])) (scaled millis)
  split
  · rename_i micros
    rw [fraction?_padded (by decide) (by decide) (by omega)]
    exact congrArg (fun n => some (n, ['Z'])) (scaled micros)
  · rw [fraction?_padded (by decide) (by decide) (by omega)]
    exact congrArg (fun n => some (n, ['Z'])) (Nat.mul_one nanosecond)

private theorem clockTime_ofParts?_self (time : ClockTime) :
    ClockTime.ofParts? time.hour time.minute time.second time.nanosecond = some time := by
  simp [ClockTime.ofParts?, time.hour_lt, time.minute_lt, time.second_le, time.nanosecond_lt]

private theorem time?_text (time : ClockTime) :
    time? ((padded 2 time.hour).toList ++ ':' :: ((padded 2 time.minute).toList ++
      ':' :: ((padded 2 time.second).toList ++ ((fractionText time.nanosecond).toList ++ ['Z'])))) =
      some (time, ['Z']) := by
  have hour : time.hour < 10 ^ 2 := by
    have := time.hour_lt
    omega
  have minute : time.minute < 10 ^ 2 := by
    have := time.minute_lt
    omega
  have second : time.second < 10 ^ 2 := by
    have := time.second_le
    omega
  have colon (rest : List Char) : after? ":" (dropBlanks (':' :: rest)) = some rest :=
    after?_dropBlanks rfl (by decide) rest
  simp only [time?, Option.bind_eq_bind, Option.bind_some, colon, number?_padded (by decide : 0 < 2) hour,
    number?_padded (by decide : 0 < 2) minute, number?_padded (by decide : 0 < 2) second,
    fraction?_fractionText time.nanosecond_lt, clockTime_ofParts?_self]
  rfl

private theorem ofLocal?_zero (date : Date) (time : ClockTime) : ofLocal? date time 0 = some ⟨date, time⟩ := by
  have hour := time.hour_lt
  have minute := time.minute_lt
  have within : ¬ (60 * (time.hour : Int) + time.minute - 0 < 0) ∧
      60 * (time.hour : Int) + time.minute - 0 < 1440 := by omega
  have ofDay : ((60 * (time.hour : Int) + time.minute - 0) % 1440).toNat = 60 * time.hour + time.minute := by
    omega
  have parts : (60 * time.hour + time.minute) / 60 = time.hour ∧
      (60 * time.hour + time.minute) % 60 = time.minute := by omega
  simp only [ofLocal?, within, if_false, if_true, ofDay, parts, clockTime_ofParts?_self]
  rfl

theorem ofText?_text (instant : Instant) : ofText? instant.text = some instant := by
  have written : instant.text.toList = (yearText instant.date.year).toList ++
      '-' :: ((padded 2 instant.date.month).toList ++ '-' :: ((padded 2 instant.date.day).toList ++
        'T' :: ((padded 2 instant.time.hour).toList ++ ':' :: ((padded 2 instant.time.minute).toList ++
          ':' :: ((padded 2 instant.time.second).toList ++
            ((fractionText instant.time.nanosecond).toList ++ ['Z'])))))) := by
    simp [text]
  have utc : offset? (dropBlanks ['Z']) = some (0, []) := by decide
  have separated (cs : List Char) : separator? ('T' :: cs) = some cs := rfl
  simp only [ofText?, written, date?_text, Option.bind_eq_bind, Option.bind_some, separated, time?_text, utc,
    List.all_nil, if_true, ofLocal?_zero]

end Tutor.Instant
