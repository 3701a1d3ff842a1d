import Mathlib.Data.List.Infix
import Tutor.Text.Search

/-!
Where a part of a text lies that is put together from pieces, and what a search finds behind a text in
which nothing fits. A pattern with one place to fit is found there, and separators cut a text where they
were put.
-/

set_option autoImplicit false
set_option relaxedAutoImplicit false

namespace Tutor.Text

variable {cs ds part : List Char} {c : Char}

/-! ### Parts of composed texts -/

theorem infix_append_cons (h : part <:+: cs ++ c :: ds) (hc : c ∉ part) : part <:+: cs ∨ part <:+: ds := by
  rcases List.infix_append_iff.mp h with left | right | ⟨before, behind, rfl, tail, start⟩
  · exact .inl left
  · rcases List.infix_cons_iff.mp right with start | right
    · cases part with
      | nil => exact .inr List.nil_infix
      | cons d part =>
        obtain ⟨rfl, -⟩ := List.cons_prefix_cons.mp start
        simp at hc
    · exact .inr right
  · cases behind with
    | nil =>
      rw [List.append_nil]
      exact .inl tail.isInfix
    | cons d behind =>
      obtain ⟨rfl, -⟩ := List.cons_prefix_cons.mp start
      simp at hc

def spaced (pieces : List (List Char)) : List Char := [' '].intercalate pieces

@[simp] theorem spaced_singleton (piece : List Char) : spaced [piece] = piece := by simp [spaced]

theorem spaced_cons_cons (piece next : List Char) (others : List (List Char)) :
    spaced (piece :: next :: others) = piece ++ ' ' :: spaced (next :: others) := by
  simp [spaced]

theorem infix_spaced {pieces : List (List Char)} (h : part <:+: spaced pieces) (hc : ' ' ∉ part)
    (nonempty : part ≠ []) : ∃ piece ∈ pieces, part <:+: piece := by
  induction pieces with
  | nil => exact absurd (List.infix_nil.mp h) nonempty
  | cons piece others ih =>
    cases others with
    | nil => exact ⟨piece, List.mem_singleton_self _, by simpa using h⟩
    | cons next others =>
      rw [spaced_cons_cons] at h
      rcases infix_append_cons h hc with here | later
      · exact ⟨piece, List.mem_cons_self, here⟩
      · obtain ⟨found, mem, part⟩ := ih later
        exact ⟨found, List.mem_cons_of_mem _ mem, part⟩

theorem forall_mem_spaced {p : Char → Bool} {pieces : List (List Char)} (blank : p ' ' = true)
    (h : ∀ piece ∈ pieces, ∀ c ∈ piece, p c = true) : ∀ c ∈ spaced pieces, p c = true := by
  induction pieces with
  | nil => simp [spaced]
  | cons piece others ih =>
    obtain ⟨here, later⟩ := List.forall_mem_cons.mp h
    cases others with
    | nil => simpa using here
    | cons next others =>
      rw [spaced_cons_cons]
      exact List.forall_mem_append.mpr ⟨here, List.forall_mem_cons.mpr ⟨blank, ih later⟩⟩

/-! ### The last character of a text -/

theorem getLast?_cons_or (c : Char) (cs : List Char) (before : Option Char) :
    (c :: cs).getLast?.or before = cs.getLast?.or (some c) := by
  rw [List.getLast?_cons]
  cases cs.getLast? <;> rfl

theorem any_getLast?_of_cons {p : Char → Bool} (h : (c :: cs).getLast?.any p = false) :
    cs.getLast?.any p = false := by
  cases cs with
  | nil => rfl
  | cons d cs => rwa [List.getLast?_cons_cons] at h

theorem any_getLast?_cons {p : Char → Bool} (hc : p c = false) (h : cs.getLast?.any p = false) :
    (c :: cs).getLast?.any p = false := by
  cases cs with
  | nil => exact hc
  | cons d cs => rwa [List.getLast?_cons_cons]

/-! ### Searching -/

theorem occurs_iff_infix : occurs part cs = true ↔ part <:+: cs := by
  simp only [occurs_iff, List.IsInfix, @eq_comm _ cs]

theorem occurs_eq_false (h : ¬ part <:+: cs) : occurs part cs = false :=
  Bool.eq_false_iff.mpr (mt occurs_iff_infix.mp h)

theorem occurs_of_infix (h : part <:+: cs) : occurs part cs = true := occurs_iff_infix.mpr h

theorem after?_append (word : String) (rest : List Char) : after? word (word.toList ++ rest) = some rest := by
  simp [after?]

private theorem append_of_after? {word : String} (h : after? word cs = some ds) : word.toList ++ ds = cs := by
  unfold after? at h
  split at h
  · rename_i start
    cases h
    exact List.prefix_iff_eq_append.mp (List.isPrefixOf_iff_prefix.mp start)
  · cases h

theorem exists_append_of_afterOneOf? {words : List String} (h : afterOneOf? words cs = some ds) :
    ∃ word ∈ words, word.toList ++ ds = cs := by
  obtain ⟨word, mem, found⟩ := List.exists_of_findSome?_eq_some h
  exact ⟨word, mem, append_of_after? found⟩

theorem exists_prefix_of_afterOneOf? {words : List String} (h : afterOneOf? words cs = some ds) :
    ∃ word ∈ words, word.toList <+: cs := by
  obtain ⟨word, mem, whole⟩ := exists_append_of_afterOneOf? h
  exact ⟨word, mem, ds, whole⟩

theorem firstMatch?_append {α : Type} {pattern : Option Char → List Char → Option α}
    (h : ∀ s, s <:+ cs → s ≠ [] → ∀ before, pattern before (s ++ ds) = none) (before : Option Char) :
    firstMatch? pattern before (cs ++ ds) = firstMatch? pattern (cs.getLast?.or before) ds := by
  induction cs generalizing before with
  | nil => rfl
  | cons c cs ih =>
    have here : pattern before (c :: (cs ++ ds)) = none :=
      h (c :: cs) (List.suffix_refl _) (List.cons_ne_nil c cs) before
    have later := ih (fun s part => h s (part.trans (List.suffix_cons c cs))) (some c)
    rw [List.cons_append, firstMatch?, here]
    rw [getLast?_cons_or]
    exact later

theorem firstInLine?_append {α : Type} {pattern : List Char → Option α}
    (h : ∀ s, s <:+ cs → s ≠ [] → pattern (s ++ ds) = none) (line : '\n' ∉ cs) :
    firstInLine? pattern (cs ++ ds) = firstInLine? pattern ds := by
  induction cs with
  | nil => rfl
  | cons c cs ih =>
    have here : pattern (c :: (cs ++ ds)) = none := h (c :: cs) (List.suffix_refl _) (List.cons_ne_nil c cs)
    obtain ⟨other, line⟩ := List.ne_and_not_mem_of_not_mem_cons line
    rw [List.cons_append, firstInLine?, here]
    simp only [if_neg (Ne.symm other)]
    exact ih (fun s part => h s (part.trans (List.suffix_cons c cs))) line

theorem firstMatch?_of_eq_some {α : Type} {pattern : Option Char → List Char → Option α}
    {before : Option Char} {a : α} (h : pattern before cs = some a) :
    firstMatch? pattern before cs = some a := by
  cases cs with
  | nil => exact h
  | cons c cs => simp only [firstMatch?, h]

theorem firstInLine?_of_eq_some {α : Type} {pattern : List Char → Option α} {a : α}
    (h : pattern cs = some a) : firstInLine? pattern cs = some a := by
  cases cs with
  | nil => exact h
  | cons c cs => simp only [firstInLine?, h]

/-- Two characters at a place in front of a text lie in the part in front of it, if a blank stands
between the two parts. -/
theorem pair_within {a b : Char} {s : List Char} (part : s <:+ cs ++ [' ']) (nonempty : s ≠ [])
    (start : [a, b] <+: s ++ ds) (visible : ' ' ∉ [a, b]) : [a, b] <:+: cs := by
  match s with
  | [] => exact absurd rfl nonempty
  | [x] =>
    have last : x = ' ' := by
      obtain ⟨before, same⟩ := part
      exact (List.append_singleton_inj.mp same).2
    obtain ⟨rfl, -⟩ := List.cons_prefix_cons.mp start
    simp [last] at visible
  | x :: y :: others =>
    obtain ⟨rfl, tail⟩ := List.cons_prefix_cons.mp start
    obtain ⟨rfl, -⟩ := List.cons_prefix_cons.mp tail
    have inside : [a, b] <:+: cs ++ [' '] := List.IsInfix.trans ⟨[], others, rfl⟩ part.isInfix
    rcases infix_append_cons inside visible with here | none
    · exact here
    · simp at none

/-! ### The place of a search -/

section

variable {α : Type} {pattern : Option Char → List Char → Option α} {a : α} {front rest : List Char}

private theorem exists_of_firstMatch? {before : Option Char} {cs : List Char}
    (h : firstMatch? pattern before cs = some a) :
    ∃ front rest, front ++ rest = cs ∧ pattern (front.getLast?.or before) rest = some a := by
  induction cs generalizing before with
  | nil => exact ⟨[], [], rfl, h⟩
  | cons c cs ih =>
    unfold firstMatch? at h
    split at h
    · rename_i found here
      cases h
      exact ⟨[], c :: cs, rfl, here⟩
    · obtain ⟨front, rest, rfl, found⟩ := ih h
      refine ⟨c :: front, rest, rfl, ?_⟩
      rwa [getLast?_cons_or]

private theorem firstMatch?_ne_none {before : Option Char} (h : pattern (front.getLast?.or before) rest = some a) :
    firstMatch? pattern before (front ++ rest) ≠ none := by
  induction front generalizing before with
  | nil =>
    have here : firstMatch? pattern before rest = some a := firstMatch?_of_eq_some h
    rw [List.nil_append, here]
    exact Option.some_ne_none a
  | cons c front ih =>
    rw [List.cons_append, firstMatch?]
    split
    · exact Option.some_ne_none _
    · rw [getLast?_cons_or] at h
      exact ih h

theorem firstMatch?_of_sole {before : Option Char}
    (sole : ∀ f r a, f ++ r = front ++ rest → pattern (f.getLast?.or before) r = some a → f = front) :
    firstMatch? pattern before (front ++ rest) = pattern (front.getLast?.or before) rest := by
  cases found : firstMatch? pattern before (front ++ rest) with
  | none =>
    cases here : pattern (front.getLast?.or before) rest with
    | none => rfl
    | some a => exact absurd found (firstMatch?_ne_none here)
  | some a =>
    obtain ⟨f, r, whole, fits⟩ := exists_of_firstMatch? found
    obtain rfl := sole f r a whole fits
    obtain rfl := List.append_cancel_left whole
    exact fits.symm

end

/-! ### Pieces between separators -/

theorem pieces_intercalate {separator : Char} (other : separator ≠ ' ') {piece : List Char}
    {others : List (List Char)} (h : separator ∉ piece) (hothers : ∀ p ∈ others, separator ∉ p) :
    pieces separator ([separator, ' '].intercalate (piece :: others)) =
      piece :: others.map (' ' :: ·) := by
  induction others generalizing piece with
  | nil => simpa using pieces_of_notMem h
  | cons next others ih =>
    obtain ⟨hnext, hothers⟩ := List.forall_mem_cons.mp hothers
    have spaced : separator ∉ ' ' :: next := by simp [other, hnext]
    have split : [separator, ' '].intercalate (piece :: next :: others) =
        piece ++ separator :: [separator, ' '].intercalate ((' ' :: next) :: others) := by
      cases others <;> simp
    rw [split, pieces_append_separator, pieces_of_notMem h, ih spaced hothers]
    rfl

end Tutor.Text
