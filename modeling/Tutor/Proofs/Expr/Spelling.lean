import Tutor.Proofs.Expr.RoundTrip
import Tutor.Proofs.Text.Ascii
import Tutor.Proofs.Text.Search

/-!
The characters of a written expression, and the letters that stand together in it: a single variable, or
the name of a function.
-/

set_option autoImplicit false
set_option relaxedAutoImplicit false

namespace Tutor.Expr

open Number (fractionText integerText isDigit_of_mem_toDigits naturalText)
open Reader (functions)

variable {p : Phrase} {cs part : List Char} {e : Expr}

/-! ### Letters that stand together -/

def functionNames : List (List Char) := functions.map Prod.fst

def IsRun (part : List Char) : Prop := part.length ≤ 1 ∨ ∃ name ∈ functionNames, part <:+: name

instance (part : List Char) : Decidable (IsRun part) :=
  inferInstanceAs (Decidable (part.length ≤ 1 ∨ ∃ name ∈ functionNames, part <:+: name))

private theorem isRun_nil : IsRun [] := .inl (Nat.zero_le 1)

private theorem isRun_of_infix_nil (h : part <:+: []) : IsRun part := List.infix_nil.mp h ▸ isRun_nil

private theorem infix_split {c : Char} {ds : List Char} (letters : ∀ d ∈ part, d.isAlpha = true)
    (h : part <:+: cs ++ c :: ds) (hc : c.isAlpha = false) : part <:+: cs ∨ part <:+: ds := by
  apply Text.infix_append_cons h
  intro mem
  rw [letters c mem] at hc
  cases hc

private theorem isRun_closed (letters : ∀ d ∈ part, d.isAlpha = true) (ih : part <:+: cs → IsRun part)
    (h : part <:+: cs ++ [')']) : IsRun part := by
  rcases infix_split letters h (by decide) with inside | none
  · exact ih inside
  · exact isRun_of_infix_nil none

private theorem isRun_behind {c : Char} (letters : ∀ d ∈ part, d.isAlpha = true) (hc : c.isAlpha = false)
    (ih : part <:+: cs → IsRun part) (h : part <:+: c :: cs) : IsRun part := by
  have split : part <:+: [] ++ c :: cs := h
  rcases infix_split letters split hc with none | behind
  · exact isRun_of_infix_nil none
  · exact ih behind

theorem Written.isRun (h : Written p cs e) (letters : ∀ d ∈ part, d.isAlpha = true) (inside : part <:+: cs) :
    IsRun part := by
  induction h with
  | letter h => exact .inl inside.length_le
  | @number digits _ h =>
    cases part with
    | nil => exact isRun_nil
    | cons c part =>
      have digit := h c (inside.mem List.mem_cons_self)
      rw [isDigit_of_isAlpha (letters c List.mem_cons_self)] at digit
      cases digit
  | bracketed _ ih => exact isRun_behind letters (by decide) (isRun_closed letters ih) inside
  | applied mem _ ih =>
    rcases infix_split letters inside (by decide) with name | argument
    · exact .inr ⟨_, List.mem_map_of_mem mem, name⟩
    · exact isRun_closed letters ih argument
  | raised _ _ iha ihb | multiplied _ _ iha ihb | divided _ _ iha ihb | added _ _ iha ihb
  | subtracted _ _ iha ihb =>
    rcases infix_split letters inside (by decide) with left | right
    · exact iha left
    · exact ihb right
  | starred _ _ iha ihb =>
    rcases infix_split letters inside (by decide) with left | right
    · exact iha left
    · exact isRun_behind letters (by decide) ihb right
  | negated _ ih => exact isRun_behind letters (by decide) ih inside
  | outer _ ih => exact ih inside

private theorem exists_of_append_eq {ds xs ys : List Char} {c s : Char} (h : xs ++ s :: ys = c :: '(' :: ds)
    (nonempty : xs ≠ []) (other : s ≠ '(') : ∃ tail, xs = c :: '(' :: tail := by
  match xs with
  | [] => exact absurd rfl nonempty
  | [x] =>
    cases h
    exact absurd rfl other
  | x :: y :: others =>
    cases h
    exact ⟨others, rfl⟩

theorem Written.ne_nil (h : Written p cs e) : cs ≠ [] := by
  obtain ⟨c, ds, rfl, -⟩ := h.starts
  exact List.cons_ne_nil c ds

theorem Written.isAlpha_of_bracket {c : Char} {ds : List Char} (h : Written p (c :: '(' :: ds) e) :
    c.isAlpha = false := by
  generalize whole : c :: '(' :: ds = ws at h
  induction h generalizing ds with
  | letter h => cases whole
  | number _ h =>
    subst whole
    cases h '(' (by simp)
  | bracketed _ _ | negated _ _ =>
    obtain ⟨rfl, -⟩ := List.cons.inj whole
    decide
  | @applied name _ _ _ mem _ _ =>
    -- The second letter of the name stands where the bracket should.
    obtain ⟨long, letters⟩ := letters_of_mem_functions _ mem
    match name with
    | [] | [_] => simp at long
    | a :: b :: others =>
      have bracket : '(' = b := (List.cons.inj (List.cons.inj whole).2).1
      cases bracket ▸ letters b (by simp)
  | raised first _ ih _ | starred first _ ih _ | multiplied first _ ih _ | divided first _ ih _
  | added first _ ih _ | subtracted first _ ih _ =>
    obtain ⟨tail, rfl⟩ := exists_of_append_eq whole.symm first.ne_nil (by decide)
    exact ih rfl
  | outer _ ih => exact ih whole

/-! ### Two stars for every caret -/

def starred (c : Char) : List Char := if c = '^' then ['*', '*'] else [c]

private theorem flatMap_starred_of_notMem (h : '^' ∉ cs) : cs.flatMap starred = cs := by
  induction cs with
  | nil => rfl
  | cons c cs ih =>
    obtain ⟨other, behind⟩ := List.ne_and_not_mem_of_not_mem_cons h
    rw [List.flatMap_cons, ih behind, starred, if_neg (Ne.symm other)]
    rfl

theorem Written.flatMap_starred (h : Written p cs e) : Written p (cs.flatMap Expr.starred) e := by
  induction h with
  | letter h =>
    rw [flatMap_starred_of_notMem]
    · exact .letter h
    · rw [List.mem_singleton]
      rintro rfl
      cases h
  | number nonempty h =>
    rw [flatMap_starred_of_notMem fun mem => by cases h _ mem]
    exact .number nonempty h
  | bracketed _ ih =>
    simp only [List.flatMap_cons, List.flatMap_append, List.flatMap_nil]
    exact ih.bracketed
  | applied mem _ ih =>
    have name := flatMap_starred_of_notMem fun caret => by
      cases (letters_of_mem_functions _ mem).2 _ caret
    simp only [List.flatMap_cons, List.flatMap_append, List.flatMap_nil, name]
    exact ih.applied mem
  | raised _ _ iha ihb | starred _ _ iha ihb =>
    simp only [List.flatMap_cons, List.flatMap_append]
    exact iha.starred ihb
  | negated _ ih =>
    rw [List.flatMap_cons]
    exact ih.negated
  | multiplied _ _ iha ihb =>
    rw [List.flatMap_append, List.flatMap_cons]
    exact iha.multiplied ihb
  | divided _ _ iha ihb =>
    rw [List.flatMap_append, List.flatMap_cons]
    exact iha.divided ihb
  | added _ _ iha ihb =>
    rw [List.flatMap_append, List.flatMap_cons]
    exact iha.added ihb
  | subtracted _ _ iha ihb =>
    rw [List.flatMap_append, List.flatMap_cons]
    exact iha.subtracted ihb
  | outer _ ih => exact ih.outer

/-! ### The characters of the written form -/

def LowercaseVariables : Expr → Prop
  | .var name => ∃ c : Char, c.isLower = true ∧ name = String.singleton c
  | .const _ => True
  | .add a b | .sub a b | .mul a b | .div a b | .pow a b => a.LowercaseVariables ∧ b.LowercaseVariables
  | .neg a | .sin a | .cos a | .tan a | .exp a | .log a => a.LowercaseVariables

theorem LowercaseVariables.letterVariables (h : e.LowercaseVariables) : e.LetterVariables := by
  induction e with
  | var name =>
    obtain ⟨c, lower, same⟩ := h
    exact ⟨c, Text.isAlpha_of_isLower lower, same⟩
  | const q => trivial
  | add a b iha ihb | sub a b iha ihb | mul a b iha ihb | div a b iha ihb | pow a b iha ihb =>
    exact ⟨iha h.1, ihb h.2⟩
  | neg a ih | sin a ih | cos a ih | tan a ih | exp a ih | log a ih => exact ih h

def isFormulaChar (c : Char) : Bool :=
  c.isLower || c.isDigit || ['(', ')', '+', '-', '*', '/', '^'].contains c

def Spelled (s : String) : Prop := ∀ c ∈ s.toList, isFormulaChar c = true

instance (s : String) : Decidable (Spelled s) :=
  decidable_of_iff (s.toList.all isFormulaChar = true) List.all_eq_true

namespace Spelled

variable {s t : String}

theorem append (hs : Spelled s) (ht : Spelled t) : Spelled (s ++ t) := by
  intro c hc
  rw [String.toList_append] at hc
  exact (List.mem_append.mp hc).elim (hs c) (ht c)

theorem bracket {level strength : Nat} (h : Spelled s) : Spelled (Expr.bracket level strength s) := by
  unfold Expr.bracket
  split_ifs
  · exact .append (.append (by decide) h) (by decide)
  · exact h

theorem natural (n : Nat) : Spelled (naturalText n) := by
  intro c hc
  rw [naturalText, String.toList_ofList] at hc
  simp [isFormulaChar, isDigit_of_mem_toDigits hc]

theorem integer (n : Int) : Spelled (integerText n) := by
  unfold integerText
  split_ifs
  · exact .append (by decide) (natural _)
  · exact natural _

theorem fraction (q : Rat) : Spelled (fractionText q) := by
  unfold fractionText
  split_ifs
  · exact integer _
  · exact .append (.append (integer _) (by decide)) (natural _)

theorem constant (level : Nat) (q : Rat) : Spelled (constText level q) := by
  unfold constText
  split_ifs
  · exact fraction q
  · exact (fraction q).bracket

theorem sign (a b : Expr) : Spelled (signText a b) := by
  unfold signText
  split_ifs <;> decide

theorem applied {name : String} (hname : Spelled name) (h : Spelled s) : Spelled (name ++ s ++ ")") :=
  .append (.append hname h) (by decide)

end Spelled

private theorem spelled_textAt (h : e.LowercaseVariables) (bare : Bool) (level : Nat) :
    Spelled (textAt bare level e) := by
  induction e generalizing bare level with
  | var name =>
    obtain ⟨c, lower, rfl⟩ := h
    intro d hd
    rw [textAt, String.toList_singleton, List.mem_singleton] at hd
    simp [isFormulaChar, hd, lower]
  | const q => exact .constant level _
  | add a b iha ihb | sub a b iha ihb =>
    exact .bracket (.append (.append (iha h.1 _ _) (by split_ifs <;> decide)) (ihb h.2 _ _))
  | mul a b iha ihb | div a b iha ihb =>
    exact .bracket (.append (.append (.append (.sign a b) (iha h.1 _ _)) (by decide)) (ihb h.2 _ _))
  | pow a b iha ihb =>
    rw [textAt]
    split_ifs
    · exact .applied (by decide) (iha h.1 _ _)
    · exact .bracket (.append (.append (iha h.1 _ _) (by decide)) (ihb h.2 _ _))
  | neg a ih =>
    rw [textAt]
    split_ifs
    · exact ih h _ _
    · exact ih h _ _
    · exact .bracket (.append (by decide) (ih h _ _))
  | sin a ih | cos a ih | tan a ih | exp a ih | log a ih => exact .applied (by decide) (ih h _ _)

/-- A text that is read as an expression, and has only characters of written expressions. -/
structure IsFormula (cs : List Char) (e : Expr) : Prop where
  written : Written .sum cs e
  chars : ∀ c ∈ cs, isFormulaChar c = true

theorem exists_isFormula_text (h : e.LowercaseVariables) : ∃ f, IsFormula e.text.toList f := by
  obtain ⟨f, written, -⟩ := renders_textAt h.letterVariables false 0
  rw [phraseAt, if_pos (by decide)] at written
  exact ⟨f, written, spelled_textAt h false 0⟩

end Tutor.Expr
