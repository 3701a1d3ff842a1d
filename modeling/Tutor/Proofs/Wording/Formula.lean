import Mathlib.Data.List.TakeWhile
import Tutor.Proofs.Expr.Spelling
import Tutor.Wording.Formula

/-!
How the wording around a formula goes, and the formula stays. No word of a formula begins a filler or a
clause, no differential quotient stands in it, and apart from the sign for powers all its characters are
kept.
-/

set_option autoImplicit false
set_option relaxedAutoImplicit false

namespace Tutor.Wording

open Tutor.Expr (IsFormula IsRun Phrase Written functionNames isFormulaChar starred)
open Text (isLowered spaced spaced_cons_cons)

variable {cs ds letters : List Char} {ts us : List Token} {e : Expr}

/-! ### Tokens -/

def Token.chars : Token → List Char
  | .word letters => letters
  | .symbol c => [c]

def Token.WellFormed : Token → Prop
  | .word letters => ∀ c ∈ letters, c.isAlpha = true
  | .symbol c => c.isAlpha = false

theorem wellFormed_tokens (cs : List Char) : ∀ t ∈ tokens cs, t.WellFormed := by
  induction cs with
  | nil => simp [tokens]
  | cons c cs ih =>
    rw [tokens]
    split
    · rename_i letter
      split
      · rename_i letters others cut
        rw [cut] at ih
        obtain ⟨word, behind⟩ := List.forall_mem_cons.mp ih
        exact List.forall_mem_cons.mpr ⟨List.forall_mem_cons.mpr ⟨letter, word⟩, behind⟩
      · exact List.forall_mem_cons.mpr ⟨List.forall_mem_singleton.mpr letter, ih⟩
    · rename_i symbol
      exact List.forall_mem_cons.mpr ⟨Bool.eq_false_iff.mpr symbol, ih⟩

private theorem flatMap_chars_tokens (cs : List Char) : (tokens cs).flatMap Token.chars = cs := by
  induction cs with
  | nil => rfl
  | cons c cs ih =>
    rw [tokens]
    split
    · split
      · rename_i cut
        rw [cut, List.flatMap_cons] at ih
        rw [List.flatMap_cons, ← ih]
        rfl
      · rw [List.flatMap_cons, ih]
        rfl
    · rw [List.flatMap_cons, ih]
      rfl

theorem chars_within {t : Token} (h : t ∈ tokens cs) : t.chars <:+: cs := by
  obtain ⟨before, behind, split⟩ := List.append_of_mem h
  refine ⟨before.flatMap Token.chars, behind.flatMap Token.chars, ?_⟩
  rw [← flatMap_chars_tokens cs, split, List.flatMap_append, List.flatMap_cons, List.append_assoc]

theorem tokens_append_cons {c : Char} (h : c.isAlpha = false) (cs ds : List Char) :
    tokens (cs ++ c :: ds) = tokens cs ++ .symbol c :: tokens ds := by
  induction cs with
  | nil => simp [tokens, h]
  | cons d cs ih =>
    rw [List.cons_append, tokens, tokens, ih]
    split
    · cases tokens cs with
      | nil => rfl
      | cons t others => cases t <;> rfl
    · rfl

private theorem isRun_of_word_mem (h : IsFormula cs e) (mem : .word letters ∈ tokens cs) : IsRun letters :=
  h.written.isRun (wellFormed_tokens cs _ mem) (chars_within mem)

/-! ### Idle words -/

private theorem not_isRun_of_mem_phrases : ∀ phrase ∈ unknownClauses ++ fillers, ∃ word others,
    phrase = word :: others ∧ ¬ IsRun word.toList := by
  intro phrase mem
  simp only [unknownClauses, fillers, List.cons_append, List.nil_append, List.mem_cons, List.not_mem_nil,
    or_false] at mem
  rcases mem with rfl | rfl | rfl | rfl | rfl | rfl | rfl | rfl | rfl | rfl | rfl | rfl | rfl | rfl | rfl |
    rfl <;> exact ⟨_, _, rfl, by decide⟩

private theorem afterPhrase?_eq_none {phrase : List String} (mem : phrase ∈ unknownClauses ++ fillers)
    (h : IsRun letters) (ts : List Token) : afterPhrase? phrase (.word letters :: ts) = none := by
  obtain ⟨word, others, rfl, idle⟩ := not_isRun_of_mem_phrases phrase mem
  rw [afterPhrase?, if_neg]
  rintro rfl
  exact idle h

private theorem idleWords_eq_zero (h : IsRun letters) (ts : List Token) : idleWords (.word letters :: ts) = 0 := by
  have no_clause : (unknownClauses.find? fun clause => startsClause clause (.word letters :: ts)) = none := by
    rw [List.find?_eq_none]
    intro clause mem
    simp [startsClause, afterPhrase?_eq_none (List.mem_append_left _ mem) h]
  have no_filler :
      (fillers.filter fun filler => (afterPhrase? filler (.word letters :: ts)).isSome) = [] := by
    rw [List.filter_eq_nil_iff]
    intro filler mem
    simp [afterPhrase?_eq_none (List.mem_append_right _ mem) h]
  simp [idleWords, no_clause, no_filler]

private theorem dropIdle_append (h : ∀ letters, .word letters ∈ ts → IsRun letters) (us : List Token) :
    dropIdle 0 (ts ++ us) = ts ++ dropIdle 0 us := by
  induction ts with
  | nil => rfl
  | cons t ts ih =>
    have later := ih fun letters mem => h letters (List.mem_cons_of_mem _ mem)
    cases t with
    | symbol c => rw [List.cons_append, dropIdle, later, List.cons_append]
    | word letters =>
      have here := idleWords_eq_zero (h letters List.mem_cons_self) (ts ++ us)
      rw [List.cons_append, dropIdle, here, List.cons_append]
      simp only [later]

/-! ### Putting tokens together -/

def kept (c : Char) : List Char := tokenText none (.symbol c)

private theorem joinTokens_eq_flatMap (h : .symbol '.' ∉ ts) : joinTokens ts = ts.flatMap (tokenText none) := by
  induction ts with
  | nil => rfl
  | cons t ts ih =>
    obtain ⟨other, later⟩ := List.ne_and_not_mem_of_not_mem_cons h
    have here (next : Option Token) : tokenText next t = tokenText none t := by
      cases t with
      | word letters => rfl
      | symbol c =>
        have no_stop : c ≠ '.' := by
          rintro rfl
          exact other rfl
        simp only [tokenText, if_neg no_stop]
    rw [joinTokens, here, ih later, List.flatMap_cons]

private theorem kept_of_isAlphanum {c : Char} (h : c.isAlphanum = true) : kept c = [c] := by
  have other {d : Char} (hd : d.isAlphanum = false) : c ≠ d := by
    rintro rfl
    rw [h] at hd
    cases hd
  have punctuation : punctuation.contains c = false := by
    simp [Wording.punctuation, other (d := '?') (by decide), other (d := '!') (by decide),
      other (d := ':') (by decide), other (d := ';') (by decide), other (d := ',') (by decide)]
  simp only [kept, tokenText, Text.isBlank_of_isAlphanum h, punctuation, Bool.or_self,
    if_neg (other (d := '.') (by decide)), if_neg (other (d := '^') (by decide))]
  rfl

private theorem flatMap_tokens (cs : List Char) : (tokens cs).flatMap (tokenText none) = cs.flatMap kept := by
  have each : ∀ t ∈ tokens cs, tokenText none t = t.chars.flatMap kept := by
    intro t mem
    have wellFormed := wellFormed_tokens cs t mem
    cases t with
    | symbol c => simp [Token.chars, kept]
    | word letters =>
      have alone : ∀ c ∈ letters, kept c = [c] := fun c hc =>
        kept_of_isAlphanum (by simp [Char.isAlphanum, wellFormed c hc])
      rw [Token.chars, List.flatMap_congr alone, List.flatMap_singleton']
      rfl
  rw [List.flatMap_congr each, ← List.flatMap_assoc, flatMap_chars_tokens]

private theorem kept_of_isFormulaChar {c : Char} (h : isFormulaChar c = true) : kept c = starred c := by
  simp only [isFormulaChar, Bool.or_eq_true, List.contains_eq_mem, decide_eq_true_eq] at h
  rcases h with letter | sign
  · have alphanum : c.isAlphanum = true := by
      rcases letter with lower | digit
      · simp [Char.isAlphanum, Text.isAlpha_of_isLower lower]
      · simp [Char.isAlphanum, digit]
    have no_caret : c ≠ '^' := by
      rintro rfl
      cases alphanum
    rw [kept_of_isAlphanum alphanum, starred, if_neg no_caret]
  · simp only [List.mem_cons, List.not_mem_nil, or_false] at sign
    rcases sign with rfl | rfl | rfl | rfl | rfl | rfl | rfl <;> decide

private theorem flatMap_kept (h : IsFormula cs e) : cs.flatMap kept = cs.flatMap starred :=
  List.flatMap_congr fun c hc => kept_of_isFormulaChar (h.chars c hc)

/-! ### Differential quotients -/

def NoDifferential (cs : List Char) : Prop := ∀ v, isLetter v = true → ¬ ['/', 'd', v] <:+: cs

theorem NoDifferential.within (h : NoDifferential cs) (part : ds <:+: cs) : NoDifferential ds :=
  fun v hv found => h v hv (found.trans part)

theorem noDifferential_of_notMem (h : '/' ∉ cs) : NoDifferential cs :=
  fun _ _ found => h (found.mem List.mem_cons_self)

private theorem noDifferential_spaced {pieces : List (List Char)} (h : ∀ piece ∈ pieces, NoDifferential piece) :
    NoDifferential (spaced pieces) := by
  intro v hv found
  have visible : ' ' ∉ ['/', 'd', v] := by
    simp only [List.mem_cons, List.not_mem_nil, or_false, not_or]
    refine ⟨by decide, by decide, ?_⟩
    rintro rfl
    cases hv
  obtain ⟨piece, mem, part⟩ := Text.infix_spaced found visible (List.cons_ne_nil _ _)
  exact h piece mem v hv part

theorem not_isRun_d (c : Char) : ¬ IsRun ['d', c] := by
  rintro (short | ⟨name, mem, part⟩)
  · simp at short
  · have no_name : ∀ name ∈ functionNames, 'd' ∉ name := by decide
    exact no_name name mem (part.mem List.mem_cons_self)

private theorem noDifferential_of_isFormula (h : IsFormula cs e) : NoDifferential cs := by
  intro v hv found
  have letters : ∀ c ∈ ['d', v], c.isAlpha = true := by
    simp [Text.isAlpha_of_isLower hv]
  have part : ['d', v] <:+: cs := List.IsInfix.trans ⟨['/'], [], rfl⟩ found
  exact not_isRun_d v (h.written.isRun letters part)

private theorem differential?_eq_none (h : NoDifferential cs) (before : Option Char) :
    differential? before cs = none := by
  cases found : differential? before cs with
  | none => rfl
  | some rest =>
    unfold differential? at found
    split at found
    · cases found
    dsimp only at found
    split at found
    · rename_i u behind
      split at found
      · split at found
        · rename_i v tail
          split at found
          · rename_i letter
            exact absurd ⟨['d', u], tail, rfl⟩ (h v (Bool.and_eq_true_iff.mp letter).1)
          · cases found
        · cases found
      · split at found
        · rename_i v tail same
          cases same
          split at found
          · rename_i letter
            exact absurd ⟨['d'], tail, rfl⟩ (h v (Bool.and_eq_true_iff.mp letter).1)
          · cases found
        · cases found
    · cases found

private theorem dropDifferentials_eq_self (h : NoDifferential cs) (before : Option Char) :
    dropDifferentials before 0 cs = cs := by
  induction cs generalizing before with
  | nil => rfl
  | cons c cs ih =>
    rw [dropDifferentials, differential?_eq_none h]
    exact congrArg (c :: ·) (ih (h.within (List.suffix_cons c cs).isInfix) _)

/-! ### Texts without capitals and quotients -/

/-- A text that stays as it is until it is cut into tokens. -/
structure Plain (cs : List Char) : Prop where
  lowered : ∀ c ∈ cs, isLowered c = true
  noDifferential : NoDifferential cs

theorem plain_of_all (h : cs.all fun c => isLowered c && c != '/') : Plain cs where
  lowered c hc := (Bool.and_eq_true_iff.mp (List.all_eq_true.mp h c hc)).1
  noDifferential := noDifferential_of_notMem fun slash => by cases List.all_eq_true.mp h '/' slash

private theorem isLowered_of_isFormulaChar {c : Char} (h : isFormulaChar c = true) : isLowered c = true := by
  simp only [isFormulaChar, Bool.or_eq_true, List.contains_eq_mem, decide_eq_true_eq] at h
  rcases h with (lower | digit) | sign
  · exact Text.isLowered_of_isLower lower
  · exact Text.isLowered_of_isDigit digit
  · simp only [List.mem_cons, List.not_mem_nil, or_false] at sign
    rcases sign with rfl | rfl | rfl | rfl | rfl | rfl | rfl <;> decide

theorem plain_of_isFormula (h : IsFormula cs e) : Plain cs where
  lowered c hc := isLowered_of_isFormulaChar (h.chars c hc)
  noDifferential := noDifferential_of_isFormula h

theorem plain_of_isLower {v : Char} (h : v.isLower = true) : Plain [v] where
  lowered := List.forall_mem_singleton.mpr (Text.isLowered_of_isLower h)
  noDifferential := noDifferential_of_notMem fun slash => by
    cases List.mem_singleton.mp slash
    cases h

theorem plain_spaced {pieces : List (List Char)} (h : ∀ piece ∈ pieces, Plain piece) :
    Plain (spaced pieces) where
  lowered := Text.forall_mem_spaced (by decide) fun piece mem => (h piece mem).lowered
  noDifferential := noDifferential_spaced fun piece mem => (h piece mem).noDifferential

private theorem formula_of_plain (h : Plain cs) :
    formula (String.ofList cs) = String.ofList (zeroForm (joinTokens (dropIdle 0 (tokens cs)))) := by
  rw [formula, String.toList_ofList, Text.lowerChars_eq_self h.lowered,
    dropDifferentials_eq_self h.noDifferential]

/-! ### Sides of equations -/

private theorem zeroForm_of_notMem (h : '=' ∉ cs) : zeroForm cs = cs := by
  have none_here : cs.dropWhile (· != '=') = [] := by
    rw [List.dropWhile_eq_nil_iff]
    intro c hc
    simpa using ne_of_mem_of_not_mem hc h
  simp [zeroForm, none_here]

private theorem zeroForm_equation (left : '=' ∉ cs) (nonempty : cs ≠ []) (definition : isDefinition cs = false)
    (right : ds ≠ []) : zeroForm (cs ++ '=' :: ds) = cs ++ '-' :: '(' :: (ds ++ [')']) := by
  have before : ∀ c ∈ cs, (c != '=') = true := fun c hc => by simpa using ne_of_mem_of_not_mem hc left
  have taken : (cs ++ '=' :: ds).takeWhile (· != '=') = cs := by
    rw [List.takeWhile_append_of_pos before]
    simp
  have dropped : (cs ++ '=' :: ds).dropWhile (· != '=') = '=' :: ds := by
    rw [List.dropWhile_append_of_pos before]
    simp
  simp [zeroForm, taken, dropped, nonempty, definition, right]

private theorem isDefinition_of_written {p : Phrase} (h : Written p cs e) : isDefinition cs = false := by
  unfold isDefinition
  split
  · rename_i f v
    have letter : f.isLower = false := (Bool.or_eq_false_iff.mp h.isAlpha_of_bracket).2
    simp [isLetter, letter]
  · rfl

theorem notMem_of_isFormula {c : Char} (h : IsFormula cs e) (hc : isFormulaChar c = false) : c ∉ cs := by
  intro mem
  rw [h.chars c mem] at hc
  cases hc

private theorem notMem_flatMap_starred {c : Char} (h : c ∉ cs) (hc : c ≠ '*') : c ∉ cs.flatMap starred := by
  intro mem
  obtain ⟨d, hd, mem⟩ := List.mem_flatMap.mp mem
  unfold starred at mem
  split at mem
  · simp [hc] at mem
  · exact h (List.mem_singleton.mp mem ▸ hd)

private theorem symbol_notMem_tokens {c : Char} (h : c ∉ cs) : .symbol c ∉ tokens cs :=
  fun mem => h ((chars_within mem).mem List.mem_cons_self)

/-! ### Formulas in sentences -/

def equationSentence (cs ds : List Char) : List Char := spaced ["solve".toList, cs, ['='], ds]

def derivativeSentence (cs : List Char) (v : Char) : List Char :=
  spaced ["derivative".toList, "of".toList, cs, "with".toList, "respect".toList, "to".toList, [v]]

def limitBody (cs : List Char) : List Char := spaced ["limit".toList, "of".toList, cs, "as".toList, []]

private theorem tokens_spaced_cons_cons (piece next : List Char) (others : List (List Char)) :
    tokens (spaced (piece :: next :: others)) =
      tokens piece ++ .symbol ' ' :: tokens (spaced (next :: others)) := by
  rw [spaced_cons_cons, tokens_append_cons (by decide)]

private theorem flatMap_tokens_of_isFormula (h : IsFormula cs e) :
    (tokens cs).flatMap (tokenText none) = cs.flatMap starred := by
  rw [flatMap_tokens, flatMap_kept h]

private theorem fullStop_notMem (h : IsFormula cs e) : .symbol '.' ∉ tokens cs :=
  symbol_notMem_tokens (notMem_of_isFormula h (by decide))

private theorem equals_notMem (h : IsFormula cs e) : '=' ∉ cs.flatMap starred :=
  notMem_flatMap_starred (notMem_of_isFormula h (by decide)) (by decide)

theorem formula_equation {f : Expr} (left : IsFormula cs e) (right : IsFormula ds f) :
    formula (String.ofList (equationSentence cs ds)) =
      String.ofList (cs.flatMap starred ++ '-' :: '(' :: (ds.flatMap starred ++ [')'])) := by
  have plain : Plain (equationSentence cs ds) := by
    apply plain_spaced
    simp only [List.forall_mem_cons, plain_of_isFormula left, plain_of_isFormula right]
    exact ⟨plain_of_all (by decide), trivial, plain_of_all (by decide), trivial, by simp⟩
  have cut : tokens (equationSentence cs ds) =
      .word "solve".toList :: .symbol ' ' ::
        (tokens cs ++ .symbol ' ' :: .symbol '=' :: .symbol ' ' :: tokens ds) := by
    simp only [equationSentence, tokens_spaced_cons_cons, Text.spaced_singleton]
    rfl
  have rest : dropIdle 0 (tokens cs ++ .symbol ' ' :: .symbol '=' :: .symbol ' ' :: tokens ds) =
      tokens cs ++ .symbol ' ' :: .symbol '=' :: .symbol ' ' :: tokens ds := by
    have behind := dropIdle_append (fun _ => isRun_of_word_mem right) []
    rw [List.append_nil, dropIdle, List.append_nil] at behind
    rw [dropIdle_append fun _ => isRun_of_word_mem left, dropIdle, dropIdle, dropIdle, behind]
  have words : dropIdle 0 (tokens (equationSentence cs ds)) =
      .symbol ' ' :: (tokens cs ++ .symbol ' ' :: .symbol '=' :: .symbol ' ' :: tokens ds) := by
    rw [cut]
    exact congrArg (.symbol ' ' :: ·) rest
  have joined : joinTokens (.symbol ' ' ::
      (tokens cs ++ .symbol ' ' :: .symbol '=' :: .symbol ' ' :: tokens ds)) =
        cs.flatMap starred ++ '=' :: ds.flatMap starred := by
    rw [joinTokens_eq_flatMap (by simp [fullStop_notMem left, fullStop_notMem right])]
    simp only [List.flatMap_cons, List.flatMap_append, flatMap_tokens_of_isFormula left,
      flatMap_tokens_of_isFormula right]
    rfl
  rw [formula_of_plain plain, words, joined, zeroForm_equation (equals_notMem left)
    left.written.flatMap_starred.ne_nil (isDefinition_of_written left.written.flatMap_starred)
    right.written.flatMap_starred.ne_nil]

private theorem formula_of_dropIdle (before behind : List Token) (h : IsFormula cs e) (plain : Plain ds)
    (words : dropIdle 0 (tokens ds) = before ++ (tokens cs ++ behind))
    (blanks : ∀ t ∈ before ++ behind, t = .symbol ' ') :
    formula (String.ofList ds) = String.ofList (cs.flatMap starred) := by
  have none_kept {ts : List Token} (h : ∀ t ∈ ts, t = .symbol ' ') : ts.flatMap (tokenText none) = [] := by
    rw [List.flatMap_eq_nil_iff]
    intro t ht
    rw [h t ht]
    rfl
  have no_stop : Token.symbol '.' ∉ before ++ (tokens cs ++ behind) := by
    have outside : Token.symbol '.' ∉ before ++ behind := fun mem => by cases blanks _ mem
    simp only [List.mem_append, not_or] at outside ⊢
    exact ⟨outside.1, fullStop_notMem h, outside.2⟩
  obtain ⟨blanks_before, blanks_behind⟩ := List.forall_mem_append.mp blanks
  rw [formula_of_plain plain, words, joinTokens_eq_flatMap no_stop, List.flatMap_append, List.flatMap_append,
    none_kept blanks_before, none_kept blanks_behind, flatMap_tokens_of_isFormula h, List.nil_append,
    List.append_nil, zeroForm_of_notMem (equals_notMem h)]

theorem plain_derivativeSentence {v : Char} (h : IsFormula cs e) (hv : v.isLower = true) :
    Plain (derivativeSentence cs v) := by
  apply plain_spaced
  simp only [List.forall_mem_cons, plain_of_isFormula h, plain_of_isLower hv]
  exact ⟨plain_of_all (by decide), plain_of_all (by decide), trivial, plain_of_all (by decide),
    plain_of_all (by decide), plain_of_all (by decide), trivial, by simp⟩

theorem formula_derivative {v : Char} (h : IsFormula cs e) (hv : v.isLower = true) :
    formula (String.ofList (derivativeSentence cs v)) = String.ofList (cs.flatMap starred) := by
  have unknown : tokens [v] = [.word [v]] := by simp [tokens, Text.isAlpha_of_isLower hv]
  apply formula_of_dropIdle [.symbol ' ', .symbol ' '] [.symbol ' ', .symbol ' ', .symbol ' ', .symbol ' '] h
    (plain_derivativeSentence h hv)
  · simp only [derivativeSentence, tokens_spaced_cons_cons, Text.spaced_singleton, unknown]
    have words := dropIdle_append (fun _ => isRun_of_word_mem h)
      (.symbol ' ' :: (tokens "with".toList ++ .symbol ' ' :: (tokens "respect".toList ++
        .symbol ' ' :: (tokens "to".toList ++ .symbol ' ' :: [.word [v]]))))
    exact congrArg (.symbol ' ' :: .symbol ' ' :: ·) words
  · simp

theorem formula_limit (h : IsFormula cs e) :
    formula (String.ofList (limitBody cs)) = String.ofList (cs.flatMap starred) := by
  have plain : Plain (limitBody cs) := by
    apply plain_spaced
    simp only [List.forall_mem_cons, plain_of_isFormula h]
    exact ⟨plain_of_all (by decide), plain_of_all (by decide), trivial, plain_of_all (by decide),
      plain_of_all (by decide), by simp⟩
  apply formula_of_dropIdle [.symbol ' ', .symbol ' '] [.symbol ' ', .symbol ' '] h plain
  · simp only [limitBody, tokens_spaced_cons_cons, Text.spaced_singleton]
    have words := dropIdle_append (fun _ => isRun_of_word_mem h)
      (.symbol ' ' :: (tokens "as".toList ++ .symbol ' ' :: tokens []))
    exact congrArg (.symbol ' ' :: .symbol ' ' :: ·) words
  · simp

end Tutor.Wording
