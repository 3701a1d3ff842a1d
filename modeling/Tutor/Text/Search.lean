/-!
Finding parts of a text: fixed words, the first place where a pattern fits, and the pieces between
separators.
-/

set_option autoImplicit false
set_option relaxedAutoImplicit false

namespace Tutor.Text

/-- Whether a word occurs in a text, also inside of other words. -/
def occurs (word : List Char) : List Char → Bool
  | [] => word.isEmpty
  | c :: rest => word.isPrefixOf (c :: rest) || occurs word rest

def contains (text : List Char) (word : String) : Bool := occurs word.toList text

def after? (word : String) (cs : List Char) : Option (List Char) :=
  if word.toList.isPrefixOf cs then some (cs.drop word.toList.length) else none

def afterOneOf? (words : List String) (cs : List Char) : Option (List Char) :=
  words.findSome? fun word => after? word cs

/-- What a pattern finds at the first place where it fits. The pattern sees the character before the
place and the text from the place on. -/
def firstMatch? {α : Type} (pattern : Option Char → List Char → Option α) :
    Option Char → List Char → Option α
  | before, [] => pattern before []
  | before, c :: rest =>
    match pattern before (c :: rest) with
    | some found => some found
    | none => firstMatch? pattern (some c) rest

/-- What a pattern finds at the first place of a line where it fits. -/
def firstInLine? {α : Type} (pattern : List Char → Option α) : List Char → Option α
  | [] => pattern []
  | c :: rest =>
    match pattern (c :: rest) with
    | some found => some found
    | none => if c = '\n' then none else firstInLine? pattern rest

/-- The pieces of a text between separators; there is always one more piece than separators. -/
def pieces (separator : Char) : List Char → List (List Char)
  | [] => [[]]
  | c :: rest =>
    match pieces separator rest with
    | [] => [[c]]
    | piece :: others => if c = separator then [] :: piece :: others else (c :: piece) :: others

theorem occurs_iff (word text : List Char) :
    occurs word text = true ↔ ∃ a b, text = a ++ word ++ b := by
  induction text with
  | nil =>
    simp only [occurs, List.isEmpty_iff]
    constructor
    · rintro rfl
      exact ⟨[], [], rfl⟩
    · rintro ⟨a, b, h⟩
      simp only [List.nil_eq, List.append_eq_nil_iff] at h
      exact h.1.2
  | cons c rest ih =>
    simp only [occurs, Bool.or_eq_true, ih, List.isPrefixOf_iff_prefix]
    constructor
    · rintro (⟨b, h⟩ | ⟨a, b, rfl⟩)
      · exact ⟨[], b, by simp [h]⟩
      · exact ⟨c :: a, b, rfl⟩
    · rintro ⟨a, b, h⟩
      cases a with
      | nil => exact .inl ⟨b, by simpa using h.symm⟩
      | cons d a =>
        simp only [List.cons_append, List.cons.injEq] at h
        exact .inr ⟨a, b, h.2⟩

theorem pieces_ne_nil (separator : Char) (cs : List Char) : pieces separator cs ≠ [] := by
  cases cs with
  | nil => simp [pieces]
  | cons c rest =>
    rw [pieces]
    split
    · simp
    · split <;> simp

theorem pieces_append_separator (separator : Char) (a b : List Char) :
    pieces separator (a ++ separator :: b) = pieces separator a ++ pieces separator b := by
  induction a with
  | nil =>
    simp only [List.nil_append, pieces, if_true, List.singleton_append]
    split
    · exact absurd ‹_› (pieces_ne_nil separator b)
    · simp [*]
  | cons c a ih =>
    rw [List.cons_append, pieces, pieces, ih]
    cases h : pieces separator a with
    | nil => exact absurd h (pieces_ne_nil separator a)
    | cons piece others =>
      simp only [List.cons_append]
      split <;> rfl

theorem pieces_of_notMem {separator : Char} {cs : List Char} (h : separator ∉ cs) :
    pieces separator cs = [cs] := by
  induction cs with
  | nil => rfl
  | cons c cs ih =>
    obtain ⟨other, behind⟩ := List.ne_and_not_mem_of_not_mem_cons h
    simp only [pieces, ih behind, if_neg (Ne.symm other)]

theorem pieces_append_of_notMem {separator : Char} (a : List Char) {b : List Char} (h : separator ∉ b) :
    pieces separator (a ++ b) = (pieces separator a).dropLast ++
      [(pieces separator a).getLast (pieces_ne_nil separator a) ++ b] := by
  induction a with
  | nil => exact pieces_of_notMem h
  | cons c a ih =>
    obtain ⟨piece, others, some⟩ := List.exists_cons_of_ne_nil (pieces_ne_nil separator a)
    simp only [List.cons_append, pieces, ih, some]
    cases others with
    | nil => by_cases same : c = separator <;> simp [same]
    | cons next others => by_cases same : c = separator <;> simp [same]

example : pieces ',' "1,,2".toList = [['1'], [], ['2']] := by decide +kernel

end Tutor.Text
