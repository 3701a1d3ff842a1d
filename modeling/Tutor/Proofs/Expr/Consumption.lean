import Tutor.Proofs.Expr.Reading

/-!
No reader steps over a bracket or an operator that does nothing: between a text and what is left of it
every opening bracket opens a bracketed sum, and every operator has something behind it.
-/

set_option autoImplicit false
set_option relaxedAutoImplicit false

namespace Tutor.Expr

namespace Reader

section Consumption

/-- A character that is an opening bracket opens a bracketed sum, and one that is an operator has
something behind it. -/
structure Works (c : Char) (cs : List Char) : Prop where
  opens (h : c = '(') : result bracketed? (c :: cs) ≠ none
  joins (h : c ∈ operators) : skipBlanks cs ≠ []

/-- What is left of a text behind characters that work. -/
inductive Consumed : List Char → List Char → Prop
  | refl (cs : List Char) : Consumed cs cs
  | cons {c : Char} {cs rest : List Char} (works : Works c cs) (h : Consumed cs rest) :
    Consumed (c :: cs) rest

/-- A reader leaves a text behind characters that work, and skips the blanks in front of it. -/
structure Leaves (cs rest : List Char) : Prop where
  consumed : Consumed cs rest
  trimmed : skipBlanks rest = rest

def Plain (c : Char) : Prop := c ∉ '(' :: operators

variable {α : Type} {read : (cs : List Char) → Option (α × Shorter cs)} {cs ds used rest : List Char}
  {a : α} {c : Char}

theorem Plain.works (h : Plain c) (cs : List Char) : Works c cs where
  opens := by
    rintro rfl
    exact absurd List.mem_cons_self h
  joins operator := absurd (List.mem_cons_of_mem _ operator) h

private theorem plain_of_class {test : Char → Bool} (others : ∀ d ∈ '(' :: operators, test d = false)
    (h : test c = true) : Plain c := by
  intro mem
  rw [others c mem] at h
  cases h

private theorem plain_of_isBlank (h : isBlank c = true) : Plain c :=
  plain_of_class (by simp [operators, isBlank]) h

private theorem plain_of_isAlpha (h : c.isAlpha = true) : Plain c := plain_of_class (by simp [operators]) h

private theorem plain_of_isDigit (h : c.isDigit = true) : Plain c := plain_of_class (by simp [operators]) h

private theorem isBlank_of_mem_operators : ∀ c ∈ operators, isBlank c = false := by simp [operators, isBlank]

namespace Consumed

theorem trans (h : Consumed cs ds) (h' : Consumed ds rest) : Consumed cs rest := by
  induction h with
  | refl => exact h'
  | cons works _ ih => exact .cons works (ih h')

private theorem of_plain (h : ∀ c ∈ used, Plain c) (rest : List Char) : Consumed (used ++ rest) rest := by
  induction used with
  | nil => exact .refl rest
  | cons c used ih =>
    exact .cons ((h c List.mem_cons_self).works _) (ih fun d hd => h d (List.mem_cons_of_mem _ hd))

theorem skipBlanks (cs : List Char) : Consumed cs (skipBlanks cs) := by
  have blanks : Consumed (cs.takeWhile isBlank ++ Reader.skipBlanks cs) (Reader.skipBlanks cs) :=
    of_plain (fun c hc => plain_of_isBlank (List.mem_takeWhile_imp hc)) _
  rwa [Reader.skipBlanks, List.takeWhile_append_dropWhile] at blanks

private theorem of_operators (h : ∀ c ∈ used, c ∈ operators) (behind : Reader.skipBlanks rest ≠ []) :
    Consumed (used ++ rest) rest := by
  induction used with
  | nil => exact .refl rest
  | cons c used ih =>
    have later : ∀ d ∈ used, d ∈ operators := fun d hd => h d (List.mem_cons_of_mem _ hd)
    have followed : Reader.skipBlanks (used ++ rest) ≠ [] := by
      rcases used with _ | ⟨d, used⟩
      · exact behind
      · rw [List.cons_append, skipBlanks_cons (isBlank_of_mem_operators d (later d List.mem_cons_self))]
        exact List.cons_ne_nil _ _
    refine .cons ⟨?_, fun _ => followed⟩ (ih later)
    rintro rfl
    exact absurd (h _ List.mem_cons_self) (by decide)

private theorem exists_append (h : Consumed cs rest) : ∃ used, cs = used ++ rest := by
  induction h with
  | refl => exact ⟨[], rfl⟩
  | @cons c _ _ _ _ ih =>
    obtain ⟨used, rfl⟩ := ih
    exact ⟨c :: used, rfl⟩

theorem works (h : Consumed (c :: cs) []) : Works c cs := by
  cases h with
  | cons works _ => exact works

theorem tail (h : Consumed (c :: cs) []) : Consumed cs [] := by
  cases h with
  | cons _ later => exact later

theorem of_append (h : Consumed (used ++ rest) []) : Consumed rest [] := by
  induction used with
  | nil => exact h
  | cons c used ih => exact ih h.tail

theorem behind (h : Consumed cs []) (h' : Consumed cs rest) : Consumed rest [] := by
  obtain ⟨used, rfl⟩ := h'.exists_append
  exact of_append h

end Consumed

private theorem Leaves.of_consumed (h : Consumed cs ds) (h' : Leaves ds rest) : Leaves cs rest :=
  ⟨h.trans h'.consumed, h'.trimmed⟩

theorem Leaves.trans (h : Leaves cs ds) (h' : Leaves ds rest) : Leaves cs rest := h'.of_consumed h.consumed

private theorem leaves_of_plain (takes : Takes Plain read) (h : result (spaced? read) cs = some (a, rest)) :
    Leaves cs rest := by
  obtain ⟨used, behind, -, plain, join, rfl⟩ := exists_of_result_spaced? takes h
  refine ⟨(Consumed.skipBlanks cs).trans ?_, skipBlanks_idem behind⟩
  rw [join]
  exact (Consumed.of_plain plain behind).trans (.skipBlanks behind)

/-- Between a text and an operand there are operators and blanks. -/
def Joins (cs operand : List Char) : Prop :=
  ∃ signs behind, signs ≠ [] ∧ (∀ c ∈ signs, c ∈ operators) ∧ skipBlanks cs = signs ++ behind ∧
    operand = skipBlanks behind

namespace Joins

private theorem of_spaced? (takes : Takes (· ∈ operators) read) (h : result (spaced? read) cs = some (a, rest)) :
    Joins cs rest := exists_of_result_spaced? takes h

theorem leaves (h : Joins cs rest) (operand : rest ≠ []) : Leaves cs rest := by
  obtain ⟨signs, behind, -, operator, join, rfl⟩ := h
  refine ⟨(Consumed.skipBlanks cs).trans ?_, skipBlanks_idem behind⟩
  rw [join]
  exact (Consumed.of_operators operator operand).trans (.skipBlanks behind)

theorem operand (h : Joins cs rest) (works : Consumed cs []) :
    skipBlanks rest ≠ [] ∧ Consumed rest [] := by
  obtain ⟨signs, behind, nonempty, operator, join, rfl⟩ := h
  obtain ⟨others, last, rfl⟩ := List.eq_nil_or_concat signs |>.resolve_left nonempty
  have whole := works.behind (.skipBlanks cs)
  rw [join, List.concat_eq_append, List.append_assoc] at whole
  have from_last : Consumed (last :: behind) [] := whole.of_append
  rw [skipBlanks_idem]
  exact ⟨from_last.works.joins (operator last (by simp)), from_last.tail.behind (.skipBlanks behind)⟩

end Joins

end Consumption

/-! All readers leave texts behind characters that work. -/

section Leaving

variable {cs rest : List Char} {e : Expr} {c : Char}

private theorem leaves_of_number? (h : result number? cs = some (e, rest)) : Leaves cs rest := by
  rw [result_number?] at h
  obtain ⟨found, read, same⟩ := Option.map_eq_some_iff.mp h
  cases same
  apply leaves_of_plain (takes_bareNumber?.mono _) read
  rintro c (digit | rfl)
  · exact plain_of_isDigit digit
  · unfold Plain
    decide

private theorem leaves_of_letter? (h : result letter? cs = some (e, rest)) : Leaves cs rest := by
  rw [result_letter?] at h
  obtain ⟨found, read, same⟩ := Option.map_eq_some_iff.mp h
  cases same
  exact leaves_of_plain ((takes_one? _).mono fun c => plain_of_isAlpha) read

theorem leaves_of_function? {node : Expr → Expr} (h : result function? cs = some (node, rest)) :
    Leaves cs rest := by
  have names := takes_functionOf? fun entry mem => (letters_of_mem_functions entry mem).2
  exact leaves_of_plain (names.mono fun c => plain_of_isAlpha) h

private theorem leaves_of_closing {d : Char} (h : result (symbol? ')') cs = some (d, rest)) : Leaves cs rest := by
  apply leaves_of_plain ((takes_one? (· == ')')).mono _) h
  intro c hc
  rw [eq_of_beq hc]
  unfold Plain
  decide

theorem joins_of_productOperator? {node : Expr → Expr → Expr}
    (h : result productOperator? cs = some (node, rest)) : Joins cs rest :=
  .of_spaced? takes_bareProductOperator? h

theorem joins_of_powerOperator? {u : Unit} (h : result powerOperator? cs = some (u, rest)) : Joins cs rest :=
  .of_spaced? takes_barePowerOperator? h

theorem joins_of_sumOperator? {node : Expr → Expr → Expr} (h : result sumOperator? cs = some (node, rest)) :
    Joins cs rest := by
  obtain ⟨c, behind, sign, join, rfl⟩ := result_sumOperator?_eq_some_iff.mp h
  refine ⟨[c], behind, List.cons_ne_nil _ _, fun d hd => ?_, join, rfl⟩
  obtain rfl := List.mem_singleton.mp hd
  rcases sign with ⟨rfl, -⟩ | ⟨rfl, -⟩ <;> decide

theorem joins_of_symbol? {d : Char} (sign : c ∈ operators) (h : result (symbol? c) cs = some (d, rest)) :
    Joins cs rest := by
  obtain ⟨rfl, behind, join, rfl⟩ := result_symbol?_eq_some_iff.mp h
  refine ⟨[d], behind, List.cons_ne_nil _ _, fun c hc => ?_, join, rfl⟩
  rwa [List.mem_singleton.mp hc]

theorem result_bracketed?_skipBlanks (cs : List Char) :
    result bracketed? (skipBlanks cs) = result bracketed? cs := by
  rw [result_bracketed?, result_bracketed?, symbol?, result_spaced?, result_spaced?, skipBlanks_idem]

theorem Parsed.leaves {p : Phrase} (h : Parsed p cs e rest) : Leaves cs rest := by
  induction h with
  | @bracketed cs _ _ rest _ _ _ found opening _ closing ih =>
    obtain ⟨rfl, text, bracket, rfl⟩ := result_symbol?_eq_some_iff.mp opening
    -- The bracket works, for it is the one that was read.
    have works : Works '(' text := by
      refine ⟨fun _ => ?_, fun operator => absurd operator (by decide)⟩
      rw [← bracket, result_bracketed?_skipBlanks, found]
      exact Option.some_ne_none _
    have inner : Consumed cs (skipBlanks text) := by
      apply (Consumed.skipBlanks cs).trans
      rw [bracket]
      exact .cons works (.skipBlanks text)
    exact (ih.of_consumed inner).trans (leaves_of_closing closing)
  | applied name _ ih => exact (leaves_of_function? name).trans ih
  | number h => exact leaves_of_number? h
  | letter _ h => exact leaves_of_letter? h
  | raised _ sign exponent base ih =>
    exact (base.trans ((joins_of_powerOperator? sign).leaves exponent.ne_nil)).trans ih
  | negated sign h ih | plus sign h ih => exact ((joins_of_symbol? (by decide) sign).leaves h.ne_nil).trans ih
  | factor _ sign second first ih =>
    exact (first.trans ((joins_of_productOperator? sign).leaves second.ne_nil)).trans ih
  | beside _ _ first ih => exact first.trans ih
  | term _ sign second first ih =>
    exact (first.trans ((joins_of_sumOperator? sign).leaves second.ne_nil)).trans ih
  | outer _ ih => exact ih

theorem leaves_of_factor? {found : (Expr → Expr → Expr) × Expr} (h : result factor? cs = some (found, rest)) :
    Leaves cs rest := by
  rw [result_factor?] at h
  rcases Option.or_eq_some_iff.mp h with operated | ⟨-, beside⟩
  · obtain ⟨_, operand, _, sign, read, rfl⟩ := joined_eq_some_iff.mp operated
    exact ((joins_of_productOperator? sign).leaves (ne_nil_of_result read)).trans
      ((readsParsed operand).unary read).leaves
  · obtain ⟨⟨_, _⟩, read, same⟩ := Option.map_eq_some_iff.mp beside
    cases same
    exact ((readsParsed cs).power read).leaves

end Leaving

end Reader

end Tutor.Expr
