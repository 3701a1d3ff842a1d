import Mathlib.Logic.Function.Iterate
import Tutor.Expr.Parser

/-!
The grammar of expressions as a relation between texts and trees, and the proof that the readers read all
of it: a phrase is read to its end wherever something follows that cannot continue it.

Only a power has two spellings here, with a caret and with two stars. What the readers take beyond that is
left out: blanks, plus signs in front of an operand, decimals, function names without brackets, and products
written side by side.
-/

set_option autoImplicit false
set_option relaxedAutoImplicit false

namespace Tutor.Expr

open Reader
open Number (decimalValue)

inductive Phrase where
  | primary | power | unary | product | sum
  deriving DecidableEq

namespace Phrase

/-- The next kind of phrase; every phrase of a kind is also one of the next. -/
def outer : Phrase → Phrase
  | .primary => .power
  | .power => .unary
  | .unary => .product
  | .product | .sum => .sum

def stops : Phrase → List Char
  | .primary => [')', '+', '-', '*', '/', '^']
  | .power | .unary => [')', '+', '-', '*', '/']
  | .product => [')', '+', '-']
  | .sum => [')']

/-- What stands behind a phrase and ends it: nothing, or a text that starts with one of its stops. Two stars
end no more than a primary phrase, which they raise to a power. -/
def Follow (p : Phrase) (rest : List Char) : Prop :=
  ∀ c cs, rest = c :: cs → c ∈ p.stops ∧ (c = '*' → p ≠ .primary → cs.head? ≠ some '*')

private theorem stops_outer_subset (p : Phrase) : p.outer.stops ⊆ p.stops := by
  cases p <;> decide

namespace Follow

variable {p : Phrase} {rest cs : List Char} {c : Char}

theorem nil (p : Phrase) : p.Follow [] := by
  intro c cs h
  cases h

theorem cons (h : c ∈ p.stops) (star : c = '*' → p ≠ .primary → cs.head? ≠ some '*') :
    p.Follow (c :: cs) := by
  rintro _ _ ⟨⟩
  exact ⟨h, star⟩

private theorem cons_of_ne (h : c ∈ p.stops) (other : c ≠ '*') (cs : List Char) : p.Follow (c :: cs) :=
  cons h fun hc => absurd hc other

theorem of_outer (h : p.outer.Follow rest) : p.Follow rest := by
  intro c cs hrest
  obtain ⟨stop, star⟩ := h c cs hrest
  refine ⟨p.stops_outer_subset stop, fun hc primary => star hc ?_⟩
  cases p <;> simp [outer] at primary ⊢

theorem unary_of_power (h : Phrase.power.Follow rest) : Phrase.unary.Follow rest := by
  intro c cs hrest
  obtain ⟨stop, star⟩ := h c cs hrest
  exact ⟨stop, fun hc _ => star hc (by decide)⟩

theorem head (h : p.Follow rest) : ∀ c ∈ rest.head?, c ∈ p.stops := by
  intro c hc
  obtain ⟨cs, rfl⟩ := List.head?_eq_some_iff.mp hc
  exact (h c cs rfl).1

theorem forall_head {q : Char → Prop} (h : p.Follow rest) (stops : ∀ c ∈ p.stops, q c) :
    ∀ c ∈ rest.head?, q c := fun c hc => stops c (h.head c hc)

end Follow

end Phrase

/-- A text is a phrase of a kind and stands for a tree. -/
inductive Written : Phrase → List Char → Expr → Prop
  | letter {c : Char} (h : c.isAlpha = true) : Written .primary [c] (.var (String.singleton c))
  | number {digits : List Char} (nonempty : digits ≠ []) (h : ∀ c ∈ digits, c.isDigit = true) :
    Written .primary digits (.const (decimalValue digits []))
  | bracketed {cs : List Char} {e : Expr} (h : Written .sum cs e) :
    Written .primary ('(' :: (cs ++ [')'])) e
  | applied {name cs : List Char} {node : Expr → Expr} {e : Expr} (mem : (name, node) ∈ functions)
    (h : Written .sum cs e) : Written .primary (name ++ '(' :: (cs ++ [')'])) (node e)
  | raised {cs ds : List Char} {a b : Expr} (base : Written .primary cs a)
    (exponent : Written .unary ds b) : Written .power (cs ++ '^' :: ds) (.pow a b)
  | starred {cs ds : List Char} {a b : Expr} (base : Written .primary cs a)
    (exponent : Written .unary ds b) : Written .power (cs ++ '*' :: '*' :: ds) (.pow a b)
  | negated {cs : List Char} {e : Expr} (h : Written .unary cs e) : Written .unary ('-' :: cs) (.neg e)
  | multiplied {cs ds : List Char} {a b : Expr} (first : Written .product cs a) (second : Written .unary ds b) :
    Written .product (cs ++ '*' :: ds) (.mul a b)
  | divided {cs ds : List Char} {a b : Expr} (first : Written .product cs a) (second : Written .unary ds b) :
    Written .product (cs ++ '/' :: ds) (.div a b)
  | added {cs ds : List Char} {a b : Expr} (first : Written .sum cs a) (second : Written .product ds b) :
    Written .sum (cs ++ '+' :: ds) (.add a b)
  | subtracted {cs ds : List Char} {a b : Expr} (first : Written .sum cs a) (second : Written .product ds b) :
    Written .sum (cs ++ '-' :: ds) (.sub a b)
  | outer {p : Phrase} {cs : List Char} {e : Expr} (h : Written p cs e) : Written p.outer cs e

/-! The first character of a phrase, and the blanks before and behind it. -/

def startsOperand (c : Char) : Bool := c.isAlphanum || c == '('

private theorem ne_of_startsOperand {c d : Char} (hc : startsOperand c = true) (hd : startsOperand d = false) :
    c ≠ d := by
  rintro rfl
  rw [hc] at hd
  cases hd

theorem skipBlanks_cons {c : Char} (h : isBlank c = false) (cs : List Char) :
    skipBlanks (c :: cs) = c :: cs := by
  simp [skipBlanks, h]

theorem skipBlanks_append {tail : List Char} (trimmed : skipBlanks tail = tail) (cs : List Char) :
    skipBlanks (cs ++ tail) = skipBlanks cs ++ tail := by
  induction cs with
  | nil => exact trimmed
  | cons c cs ih =>
    by_cases blank : isBlank c = true
    · simpa only [skipBlanks, List.cons_append, List.dropWhile_cons_of_pos blank] using ih
    · rw [Bool.not_eq_true] at blank
      rw [List.cons_append, skipBlanks_cons blank, skipBlanks_cons blank]
      rfl

theorem isBlank_of_startsOperand {c : Char} (h : startsOperand c = true) : isBlank c = false := by
  have space := ne_of_startsOperand h (d := ' ') (by decide)
  have tab := ne_of_startsOperand h (d := '\t') (by decide)
  have line := ne_of_startsOperand h (d := '\n') (by decide)
  have carriage := ne_of_startsOperand h (d := '\r') (by decide)
  simp [isBlank, space, tab, line, carriage]

theorem startsOperand_of_isAlpha {c : Char} (h : c.isAlpha = true) : startsOperand c = true := by
  simp [startsOperand, Char.isAlphanum, h]

theorem startsOperand_of_isDigit {c : Char} (h : c.isDigit = true) : startsOperand c = true := by
  simp [startsOperand, Char.isAlphanum, h]

theorem isDigit_of_isAlpha {c : Char} (h : c.isAlpha = true) : c.isDigit = false := by
  have letter : 'A'.val ≤ c.val ∨ 'a'.val ≤ c.val := by
    rcases Bool.or_eq_true_iff.mp h with upper | lower
    · exact .inl (of_decide_eq_true upper).1
    · exact .inr (of_decide_eq_true (Bool.and_eq_true_iff.mp lower).1)
  have upper : '9'.val.toNat < 'A'.val.toNat := by decide
  have lower : '9'.val.toNat < 'a'.val.toNat := by decide
  apply Bool.eq_false_iff.mpr
  intro digit
  have small : c.val ≤ '9'.val := of_decide_eq_true (Bool.and_eq_true_iff.mp digit).2
  simp only [UInt32.le_iff_toNat_le] at letter small
  omega

theorem letters_of_mem_functions :
    ∀ entry ∈ functions, 2 ≤ entry.1.length ∧ ∀ c ∈ entry.1, c.isAlpha = true := by
  simp [functions]

theorem exists_cons_of_mem_functions {name : List Char} {node : Expr → Expr}
    (mem : (name, node) ∈ functions) : ∃ c tail, name = c :: tail ∧ c.isAlpha = true := by
  obtain ⟨long, letters⟩ := letters_of_mem_functions _ mem
  cases name with
  | nil => simp at long
  | cons c tail => exact ⟨c, tail, rfl, letters c List.mem_cons_self⟩

theorem Phrase.Follow.skipBlanks {p : Phrase} {rest : List Char} (h : p.Follow rest) :
    skipBlanks rest = rest := by
  rcases rest with _ | ⟨c, cs⟩
  · rfl
  · have stop : ∀ d ∈ p.stops, isBlank d = false := by
      cases p <;> simp [stops, isBlank]
    exact skipBlanks_cons (stop c (h c cs rfl).1) cs

/-- The start of a phrase: an operand or, from the unary phrases on, a minus sign. -/
def Phrase.Starts (p : Phrase) (cs : List Char) : Prop :=
  ∃ c ds, cs = c :: ds ∧ (startsOperand c = true ∨ c = '-' ∧ p ≠ .primary ∧ p ≠ .power)

namespace Phrase.Starts

variable {p : Phrase} {cs : List Char}

theorem skipBlanks_append (h : p.Starts cs) (rest : List Char) : skipBlanks (cs ++ rest) = cs ++ rest := by
  obtain ⟨c, ds, rfl, operand | ⟨rfl, -⟩⟩ := h
  · exact skipBlanks_cons (isBlank_of_startsOperand operand) _
  · exact skipBlanks_cons (by decide) _

theorem head?_append_ne_star (h : p.Starts cs) (rest : List Char) : (cs ++ rest).head? ≠ some '*' := by
  obtain ⟨c, ds, rfl, start⟩ := h
  have other : c ≠ '*' := by
    rcases start with operand | ⟨rfl, -⟩
    · exact ne_of_startsOperand operand (by decide)
    · decide
  simpa using other

theorem outer (h : p.Starts cs) : p.outer.Starts cs := by
  obtain ⟨c, ds, rfl, start⟩ := h
  refine ⟨c, ds, rfl, start.imp_right fun sign => ?_⟩
  obtain ⟨rfl, primary, power⟩ := sign
  cases p <;> simp [Phrase.outer] at primary power ⊢

end Phrase.Starts

namespace Written

variable {p : Phrase} {cs : List Char} {e : Expr}

theorem starts (h : Written p cs e) : p.Starts cs := by
  induction h with
  | letter h => exact ⟨_, _, rfl, .inl (startsOperand_of_isAlpha h)⟩
  | @number digits nonempty h =>
    obtain ⟨c, ds, rfl⟩ := List.exists_cons_of_ne_nil nonempty
    exact ⟨c, ds, rfl, .inl (startsOperand_of_isDigit (h c List.mem_cons_self))⟩
  | bracketed h ih => exact ⟨_, _, rfl, .inl rfl⟩
  | applied mem h ih =>
    obtain ⟨c, tail, rfl, letter⟩ := exists_cons_of_mem_functions mem
    exact ⟨c, _, rfl, .inl (startsOperand_of_isAlpha letter)⟩
  | raised base exponent ih _ | starred base exponent ih _ =>
    obtain ⟨c, ds, rfl, start⟩ := ih
    refine ⟨c, _, rfl, .inl ?_⟩
    rcases start with operand | ⟨-, primary, -⟩
    · exact operand
    · exact absurd rfl primary
  | negated h ih => exact ⟨_, _, rfl, .inr ⟨rfl, by decide, by decide⟩⟩
  | multiplied first second ih _ | divided first second ih _ | added first second ih _
  | subtracted first second ih _ =>
    obtain ⟨c, ds, rfl, start⟩ := ih
    exact ⟨c, _, rfl, start.imp_right fun sign => ⟨sign.1, by decide, by decide⟩⟩
  | outer h ih => exact ih.outer

end Written

/-! What the small readers do with the first character of a text. -/

def Reads {α : Type} (read : (cs : List Char) → Option (α × Shorter cs)) (cs : List Char) (a : α)
    (rest : List Char) : Prop :=
  ∃ h : rest.length < cs.length, read cs = some (a, ⟨rest, h⟩)

section Small

variable {α : Type} {read : (cs : List Char) → Option (α × Shorter cs)} {cs rest : List Char} {a : α}
  {c : Char} {p : Phrase}

private theorem Reads.between_blanks (h : Reads read (skipBlanks cs) a rest) :
    Reads (spaced? read) cs a (skipBlanks rest) := by
  obtain ⟨shorter, found⟩ := h
  simp only [Reads, spaced?, found, exists_prop, and_true]
  have := length_skipBlanks_le rest
  have := length_skipBlanks_le cs
  omega

theorem Reads.spaced (h : Reads read cs a rest) (before : skipBlanks cs = cs)
    (behind : skipBlanks rest = rest) : Reads (spaced? read) cs a rest := by
  rw [← before] at h
  have spaced := h.between_blanks
  rw [behind] at spaced
  exact spaced

theorem spaced?_eq_none (h : read cs = none) (before : skipBlanks cs = cs) : spaced? read cs = none := by
  rw [← before] at h
  simp only [spaced?, h]

private theorem reads_one {test : Char → Bool} (h : test c = true) (cs : List Char) :
    Reads (one? test) (c :: cs) c cs := ⟨by simp, by simp [one?, h]⟩

theorem one?_eq_none {test : Char → Bool} (h : ∀ c ∈ cs.head?, test c = false) : one? test cs = none := by
  rcases cs with _ | ⟨c, cs⟩
  · rfl
  · simp [one?, h c rfl]

private theorem reads_symbol {ds : List Char} (h : isBlank c = false) (behind : skipBlanks cs = ds) :
    Reads (symbol? c) (c :: cs) c ds := by
  have bare : Reads (one? (· == c)) (c :: cs) c cs := reads_one (by simp) cs
  rw [← skipBlanks_cons h cs] at bare
  rw [← behind]
  exact bare.between_blanks

theorem symbol?_eq_none (h : cs.head? ≠ some c) (before : skipBlanks cs = cs) : symbol? c cs = none := by
  apply spaced?_eq_none _ before
  apply one?_eq_none
  rintro d hd
  simpa using fun hdc : d = c => h (hdc ▸ hd)

theorem reads_letter (h : c.isAlpha = true) (behind : skipBlanks cs = cs) :
    Reads letter? (c :: cs) (.var (String.singleton c)) cs := by
  have start := isBlank_of_startsOperand (startsOperand_of_isAlpha h)
  obtain ⟨shorter, found⟩ := (reads_one h cs).spaced (skipBlanks_cons start cs) behind
  exact ⟨shorter, by rw [letter?, found]; rfl⟩

theorem splitDigits_append {digits : List Char} (h : ∀ c ∈ digits, c.isDigit = true)
    (stop : ∀ c ∈ rest.head?, c.isDigit = false) : splitDigits (digits ++ rest) = (digits, rest) := by
  rw [splitDigits, List.takeWhile_append_of_pos h, List.dropWhile_append_of_pos h]
  rcases rest with _ | ⟨c, cs⟩
  · simp
  · simp [stop c rfl]

private theorem reads_number {digits : List Char} (nonempty : digits ≠ []) (h : ∀ c ∈ digits, c.isDigit = true)
    (follow : Phrase.primary.Follow rest) :
    Reads number? (digits ++ rest) (.const (decimalValue digits [])) rest := by
  have stops : ∀ c ∈ Phrase.primary.stops, c.isDigit = false ∧ c ≠ '.' := by simp [Phrase.stops]
  have stop : ∀ c ∈ rest.head?, c.isDigit = false ∧ c ≠ '.' := fun c hc => stops c (follow.head c hc)
  have digits_rest := splitDigits_append h fun c hc => (stop c hc).1
  have bare : Reads bareNumber? (digits ++ rest) (decimalValue digits []) rest := by
    have shorter : rest.length < (digits ++ rest).length := by
      have := List.length_pos_iff.mpr nonempty
      rw [List.length_append]
      omega
    refine ⟨shorter, ?_⟩
    unfold bareNumber?
    rw [dif_pos (by rw [digits_rest]; exact nonempty)]
    split
    · rename_i ds point
      rw [digits_rest] at point
      exact absurd rfl (stop '.' (by rw [show rest = '.' :: ds from point]; rfl)).2
    · simp [digits_rest]
  have before := (Written.number nonempty h).starts.skipBlanks_append rest
  obtain ⟨shorter, found⟩ := bare.spaced before follow.skipBlanks
  exact ⟨shorter, by rw [number?, found]; rfl⟩

theorem reads_star (behind : skipBlanks cs = cs) (star : cs.head? ≠ some '*') :
    Reads productOperator? ('*' :: cs) .mul cs := by
  apply Reads.spaced _ (skipBlanks_cons rfl cs) behind
  have single : ∀ tail, cs = '*' :: tail → False := by
    rintro tail rfl
    exact star rfl
  exact ⟨by simp, bareProductOperator?.eq_2 cs single⟩

theorem reads_slash (behind : skipBlanks cs = cs) : Reads productOperator? ('/' :: cs) .div cs :=
  Reads.spaced ⟨by simp, rfl⟩ (skipBlanks_cons rfl cs) behind

theorem reads_plus (behind : skipBlanks cs = cs) : Reads sumOperator? ('+' :: cs) .add cs :=
  Reads.spaced ⟨by simp, rfl⟩ (skipBlanks_cons rfl cs) behind

theorem reads_minus (behind : skipBlanks cs = cs) : Reads sumOperator? ('-' :: cs) .sub cs :=
  Reads.spaced ⟨by simp, rfl⟩ (skipBlanks_cons rfl cs) behind

private theorem reads_function {name : List Char} {node : Expr → Expr} (mem : (name, node) ∈ functions)
    (behind : skipBlanks cs = cs) : Reads function? (name ++ cs) node cs := by
  simp only [functions, List.mem_cons, Prod.mk.injEq, List.not_mem_nil, or_false] at mem
  rcases mem with ⟨rfl, rfl⟩ | ⟨rfl, rfl⟩ | ⟨rfl, rfl⟩ | ⟨rfl, rfl⟩ | ⟨rfl, rfl⟩ | ⟨rfl, rfl⟩ | ⟨rfl, rfl⟩ <;>
    exact Reads.spaced ⟨by simp only [List.length_append, List.length_cons]; omega, rfl⟩
      (skipBlanks_cons rfl _) behind

private theorem functionOf?_eq_none (h : (cs.takeWhile Char.isAlpha).length < 2) :
    functionOf? functions cs = none := by
  have names := letters_of_mem_functions
  generalize functions = table at names ⊢
  induction table with
  | nil => rfl
  | cons entry others ih =>
    obtain ⟨name, node⟩ := entry
    obtain ⟨long, letters⟩ := names (name, node) List.mem_cons_self
    -- A name in front of the text would leave at least two letters there.
    have different : ¬ name.isPrefixOf cs := by
      intro same
      obtain ⟨tail, rfl⟩ := List.isPrefixOf_iff_prefix.mp same
      rw [List.takeWhile_append_of_pos letters, List.length_append] at h
      omega
    have later := ih fun entry mem => names entry (List.mem_cons_of_mem _ mem)
    simp [functionOf?, word?, different, later]

private theorem bracketed?_eq_none (h : cs.head? ≠ some '(') (before : skipBlanks cs = cs) :
    bracketed? cs = none := by
  rw [bracketed?]
  simp only [symbol?_eq_none h before]

private theorem application?_eq_none (h : (cs.takeWhile Char.isAlpha).length < 2) (before : skipBlanks cs = cs) :
    application? cs = none := by
  have function : function? cs = none := spaced?_eq_none (functionOf?_eq_none h) before
  rw [application?]
  simp only [function]

private theorem number?_eq_none (h : ∀ c ∈ cs.head?, c.isDigit = false) (before : skipBlanks cs = cs) :
    number? cs = none := by
  have bare : bareNumber? cs = none := by
    have digits : splitDigits ([] ++ cs) = ([], cs) := splitDigits_append (by simp) h
    rw [List.nil_append] at digits
    rw [bareNumber?, dif_neg]
    simp [digits]
  rw [number?, spaced?_eq_none bare before, Option.map_none]

private theorem primary?_of_plain (no_bracket : cs.head? ≠ some '(')
    (no_name : (cs.takeWhile Char.isAlpha).length < 2) (before : skipBlanks cs = cs) :
    primary? cs = (number? cs <|> letter? cs) := by
  rw [primary?]
  simp only [bracketed?_eq_none no_bracket before, application?_eq_none no_name before]
  cases number? cs <;> rfl

theorem primary?_eq_none (h : ∀ c ∈ cs.head?, startsOperand c = false) (before : skipBlanks cs = cs) :
    primary? cs = none := by
  have no_digit : ∀ c ∈ cs.head?, c.isDigit = false := fun c hc => by
    simpa using mt startsOperand_of_isDigit (by simp [h c hc])
  have no_letter : ∀ c ∈ cs.head?, c.isAlpha = false := fun c hc => by
    simpa using mt startsOperand_of_isAlpha (by simp [h c hc])
  have no_bracket : cs.head? ≠ some '(' := fun hc => by cases h '(' hc
  have no_name : (cs.takeWhile Char.isAlpha).length < 2 := by
    rcases cs with _ | ⟨c, cs⟩
    · simp
    · simp [no_letter c rfl]
  have letter : letter? cs = none := by
    rw [letter?, spaced?_eq_none (one?_eq_none no_letter) before, Option.map_none]
  rw [primary?_of_plain no_bracket no_name before, number?_eq_none no_digit before, letter]
  rfl

theorem power?_eq_none (h : primary? cs = none) : power? cs = none := by
  rw [power?]
  simp only [h]

end Small

namespace Phrase.Follow

variable {p : Phrase} {rest : List Char} {e : Expr}

theorem primary?_eq_none (h : p.Follow rest) : primary? rest = none := by
  have stops : ∀ c ∈ p.stops, startsOperand c = false := by
    cases p <;> simp [stops, startsOperand]
  exact Expr.primary?_eq_none (fun c hc => stops c (h.head c hc)) h.skipBlanks

private theorem powerOperator?_eq_none (h : Phrase.power.Follow rest) : powerOperator? rest = none := by
  apply spaced?_eq_none _ h.skipBlanks
  unfold barePowerOperator?
  split
  · exact absurd rfl ((h _ _ rfl).2 rfl (by decide))
  · exact absurd (h _ _ rfl).1 (by decide)
  · rfl

private theorem productOperator?_eq_none (h : Phrase.product.Follow rest) : productOperator? rest = none := by
  apply spaced?_eq_none _ h.skipBlanks
  unfold bareProductOperator?
  split
  · rfl
  · exact absurd (h _ _ rfl).1 (by decide)
  · exact absurd (h _ _ rfl).1 (by decide)
  · rfl

private theorem sumOperator?_eq_none (h : Phrase.sum.Follow rest) : sumOperator? rest = none := by
  apply spaced?_eq_none _ h.skipBlanks
  have none_here : one? (fun c => c == '+' || c == '-') rest = none := by
    apply one?_eq_none
    intro c hc
    obtain rfl := List.mem_singleton.mp (h.head c hc)
    rfl
  simp only [none_here]

private theorem moreFactors_eq (h : Phrase.product.Follow rest) (e : Expr) :
    moreFactors e rest = (e, ⟨rest, Nat.le_refl _⟩) := by
  rw [moreFactors, factor?]
  simp only [h.productOperator?_eq_none, power?_eq_none h.primary?_eq_none]

private theorem moreTerms_eq (h : Phrase.sum.Follow rest) (e : Expr) :
    moreTerms e rest = (e, ⟨rest, Nat.le_refl _⟩) := by
  rw [moreTerms]
  simp only [h.sumOperator?_eq_none]

end Phrase.Follow

section Continued

variable {ds rest : List Char} {a b : Expr} {node : Expr → Expr → Expr} {c : Char}

private theorem moreFactors_cons (operator : Reads productOperator? (c :: (ds ++ rest)) node (ds ++ rest))
    (second : Reads unary? (ds ++ rest) b rest) :
    (moreFactors a (c :: (ds ++ rest))).1 = (moreFactors (node a b) rest).1 ∧
      (moreFactors a (c :: (ds ++ rest))).2.1 = (moreFactors (node a b) rest).2.1 := by
  obtain ⟨_, operator⟩ := operator
  obtain ⟨_, second⟩ := second
  rw [moreFactors, factor?]
  simp only [operator, second, and_self]

private theorem moreTerms_cons (operator : Reads sumOperator? (c :: (ds ++ rest)) node (ds ++ rest))
    (second : Reads product? (ds ++ rest) b rest) :
    (moreTerms a (c :: (ds ++ rest))).1 = (moreTerms (node a b) rest).1 ∧
      (moreTerms a (c :: (ds ++ rest))).2.1 = (moreTerms (node a b) rest).2.1 := by
  obtain ⟨_, operator⟩ := operator
  obtain ⟨_, second⟩ := second
  rw [moreTerms]
  simp only [operator, second, and_self]

end Continued

/-- A phrase is read to its end wherever something follows that ends it. A product or a sum may be the
start of a longer one, so it is told what its reader makes of the rest. -/
def ReadFully : Phrase → List Char → Expr → Prop
  | .primary, cs, e => ∀ rest, Phrase.primary.Follow rest → Reads primary? (cs ++ rest) e rest
  | .power, cs, e => ∀ rest, Phrase.power.Follow rest → Reads power? (cs ++ rest) e rest
  | .unary, cs, e => ∀ rest, Phrase.unary.Follow rest → Reads unary? (cs ++ rest) e rest
  | .product, cs, e => ∀ rest, Phrase.unary.Follow rest →
    Reads product? (cs ++ rest) (moreFactors e rest).1 (moreFactors e rest).2.1
  | .sum, cs, e => ∀ rest, Phrase.product.Follow rest →
    Reads sum? (cs ++ rest) (moreTerms e rest).1 (moreTerms e rest).2.1

namespace ReadFully

variable {cs ds rest : List Char} {a b e : Expr}

private theorem product_end (h : ReadFully .product cs e) (follow : Phrase.product.Follow rest) :
    Reads product? (cs ++ rest) e rest := by
  have read := h rest (Phrase.Follow.of_outer (p := .unary) follow)
  rw [follow.moreFactors_eq] at read
  exact read

private theorem sum_end (h : ReadFully .sum cs e) (follow : Phrase.sum.Follow rest) :
    Reads sum? (cs ++ rest) e rest := by
  have read := h rest (Phrase.Follow.of_outer (p := .product) follow)
  rw [follow.moreTerms_eq] at read
  exact read

theorem letter {c : Char} (h : c.isAlpha = true) : ReadFully .primary [c] (.var (String.singleton c)) := by
  intro rest follow
  show Reads primary? (c :: rest) _ rest
  have before := skipBlanks_cons (isBlank_of_startsOperand (startsOperand_of_isAlpha h)) rest
  have no_bracket : (c :: rest).head? ≠ some '(' := by
    rw [List.head?_cons, Ne, Option.some.injEq]
    rintro rfl
    cases h
  have no_name : ((c :: rest).takeWhile Char.isAlpha).length < 2 := by
    have stops : ∀ d ∈ Phrase.primary.stops, d.isAlpha = false := by simp [Phrase.stops]
    rcases rest with _ | ⟨d, ds⟩
    · simp [h]
    · simp [h, stops d (follow.head d rfl)]
  have no_digit : ∀ d ∈ (c :: rest).head?, d.isDigit = false := by
    rintro _ ⟨⟩
    exact isDigit_of_isAlpha h
  obtain ⟨shorter, found⟩ := reads_letter h follow.skipBlanks
  refine ⟨shorter, ?_⟩
  rw [primary?_of_plain no_bracket no_name before, number?_eq_none no_digit before, found]
  rfl

theorem number {digits : List Char} (nonempty : digits ≠ []) (h : ∀ c ∈ digits, c.isDigit = true) :
    ReadFully .primary digits (.const (decimalValue digits [])) := by
  intro rest follow
  have before := (Written.number nonempty h).starts.skipBlanks_append rest
  obtain ⟨c, cs, rfl⟩ := List.exists_cons_of_ne_nil nonempty
  have digit := h c List.mem_cons_self
  have no_bracket : (c :: cs ++ rest).head? ≠ some '(' := by
    rw [List.cons_append, List.head?_cons, Ne, Option.some.injEq]
    rintro rfl
    cases digit
  have no_name : ((c :: cs ++ rest).takeWhile Char.isAlpha).length < 2 := by
    have no_letter : ¬ c.isAlpha = true := fun alpha => by
      rw [isDigit_of_isAlpha alpha] at digit
      cases digit
    simp [no_letter]
  obtain ⟨shorter, found⟩ := reads_number nonempty h follow
  refine ⟨shorter, ?_⟩
  rw [primary?_of_plain no_bracket no_name before, found]
  rfl

theorem brackets (h : ReadFully .sum (skipBlanks cs) e) (behind : skipBlanks rest = rest) :
    Reads bracketed? ('(' :: (cs ++ ')' :: rest)) e rest := by
  have blanks := skipBlanks_append (skipBlanks_cons (c := ')') (by decide) rest) cs
  obtain ⟨_, opening⟩ := reads_symbol (c := '(') (by decide) blanks
  obtain ⟨_, inside⟩ := h.sum_end (.cons_of_ne (c := ')') (by decide) (by decide) rest)
  obtain ⟨_, closing⟩ := reads_symbol (c := ')') (by decide) behind
  refine ⟨by simp only [List.length_cons, List.length_append]; omega, ?_⟩
  rw [bracketed?]
  simp only [opening, inside, closing]

theorem bracketed (h : ReadFully .sum (skipBlanks cs) e) : ReadFully .primary ('(' :: (cs ++ [')'])) e := by
  intro rest follow
  obtain ⟨shorter, found⟩ := brackets h follow.skipBlanks
  rw [List.cons_append, List.append_assoc]
  refine ⟨shorter, ?_⟩
  show primary? ('(' :: (cs ++ ')' :: rest)) = _
  rw [primary?]
  simp only [found]

theorem applied {name : List Char} {node : Expr → Expr} (mem : (name, node) ∈ functions)
    (h : ReadFully .sum (skipBlanks cs) e) :
    ReadFully .primary (name ++ '(' :: (cs ++ [')'])) (node e) := by
  intro rest follow
  obtain ⟨_, argument⟩ := brackets h follow.skipBlanks
  obtain ⟨_, function⟩ := reads_function mem (skipBlanks_cons (c := '(') rfl (cs ++ ')' :: rest))
  obtain ⟨c, letters, rfl, letter⟩ := exists_cons_of_mem_functions mem
  have no_bracket : (c :: letters ++ '(' :: (cs ++ ')' :: rest)).head? ≠ some '(' := by
    rw [List.cons_append, List.head?_cons, Ne, Option.some.injEq]
    rintro rfl
    cases letter
  have before : skipBlanks (c :: letters ++ '(' :: (cs ++ ')' :: rest)) = _ :=
    skipBlanks_cons (isBlank_of_startsOperand (startsOperand_of_isAlpha letter)) _
  have joined : c :: letters ++ '(' :: (cs ++ [')']) ++ rest =
      c :: letters ++ '(' :: (cs ++ ')' :: rest) := by simp
  rw [joined]
  refine ⟨by simp only [List.length_cons, List.length_append]; omega, ?_⟩
  rw [primary?, application?]
  simp only [bracketed?_eq_none no_bracket before, function, argument]

private theorem toPower (sign : List Char) (starts : Phrase.unary.Starts ds) (base : ReadFully .primary cs a)
    (exponent : ReadFully .unary ds b) (ends : ∀ rest, Phrase.primary.Follow (sign ++ rest))
    (operator : ∀ rest, skipBlanks rest = rest → Reads powerOperator? (sign ++ rest) () rest) :
    ReadFully .power (cs ++ (sign ++ ds)) (.pow a b) := by
  intro rest follow
  obtain ⟨behind_base, found_base⟩ := base _ (ends (ds ++ rest))
  obtain ⟨behind_sign, found_operator⟩ := operator _ (starts.skipBlanks_append rest)
  obtain ⟨shorter, found_exponent⟩ := exponent rest follow.unary_of_power
  rw [List.append_assoc, List.append_assoc]
  refine ⟨Nat.lt_trans shorter (Nat.lt_trans behind_sign behind_base), ?_⟩
  rw [power?]
  simp only [found_base, found_operator, found_exponent]

theorem raised (starts : Phrase.unary.Starts ds) (base : ReadFully .primary cs a)
    (exponent : ReadFully .unary ds b) : ReadFully .power (cs ++ '^' :: ds) (.pow a b) := by
  apply toPower ['^'] starts base exponent
  · exact fun rest => .cons_of_ne (by decide) (by decide) rest
  · exact fun rest behind => Reads.spaced ⟨by simp, rfl⟩ (skipBlanks_cons rfl _) behind

theorem starred (starts : Phrase.unary.Starts ds) (base : ReadFully .primary cs a)
    (exponent : ReadFully .unary ds b) : ReadFully .power (cs ++ '*' :: '*' :: ds) (.pow a b) := by
  apply toPower ['*', '*'] starts base exponent
  · exact fun rest => .cons (by decide) fun _ primary => absurd rfl primary
  · exact fun rest behind =>
      Reads.spaced ⟨Nat.lt_succ_of_lt (Nat.lt_succ_self _), rfl⟩ (skipBlanks_cons rfl _) behind

theorem negated (starts : Phrase.unary.Starts cs) (h : ReadFully .unary cs e) :
    ReadFully .unary ('-' :: cs) (.neg e) := by
  intro rest follow
  obtain ⟨_, sign⟩ := reads_symbol (c := '-') (by decide) (starts.skipBlanks_append rest)
  obtain ⟨_, operand⟩ := h rest follow
  refine ⟨by simp only [List.length_cons, List.length_append]; omega, ?_⟩
  show unary? ('-' :: (cs ++ rest)) = _
  rw [unary?]
  simp only [sign, operand]

theorem factor {node : Expr → Expr → Expr} {c : Char} (stop : c ∈ Phrase.unary.stops)
    (starts : Phrase.unary.Starts ds) (first : ReadFully .product cs a) (second : ReadFully .unary ds b)
    (operator : ∀ rest, Reads productOperator? (c :: (ds ++ rest)) node (ds ++ rest)) :
    ReadFully .product (cs ++ c :: ds) (node a b) := by
  intro rest follow
  -- The factor is part of the rest of the product before it, which its reader goes on to read.
  have read := first (c :: (ds ++ rest)) (.cons stop fun _ _ => starts.head?_append_ne_star rest)
  obtain ⟨same, left⟩ := moreFactors_cons (a := a) (operator rest) (second rest follow)
  rw [same, left] at read
  rw [List.append_assoc, List.cons_append]
  exact read

theorem term {node : Expr → Expr → Expr} {c : Char} (stop : c ∈ Phrase.product.stops)
    (starts : Phrase.product.Starts ds) (first : ReadFully .sum cs a) (second : ReadFully .product ds b)
    (operator : ∀ rest, Reads sumOperator? (c :: (ds ++ rest)) node (ds ++ rest)) :
    ReadFully .sum (cs ++ c :: ds) (node a b) := by
  intro rest follow
  have read := first (c :: (ds ++ rest)) (.cons stop fun _ _ => starts.head?_append_ne_star rest)
  obtain ⟨same, left⟩ := moreTerms_cons (a := a) (operator rest) (second.product_end follow)
  rw [same, left] at read
  rw [List.append_assoc, List.cons_append]
  exact read

theorem unary_of_power (starts : Phrase.power.Starts cs) (h : ReadFully .power cs e) :
    ReadFully .unary cs e := by
  intro rest follow
  have before := starts.skipBlanks_append rest
  obtain ⟨c, ds, hcs, operand | ⟨-, -, power⟩⟩ := starts
  · have no_sign {d : Char} (hd : startsOperand d = false) : symbol? d (cs ++ rest) = none := by
      apply symbol?_eq_none _ before
      rw [hcs, List.cons_append, List.head?_cons, Ne, Option.some.injEq]
      exact ne_of_startsOperand operand hd
    obtain ⟨shorter, found⟩ := h rest (Phrase.Follow.of_outer (p := .power) follow)
    refine ⟨shorter, ?_⟩
    rw [unary?]
    simp only [no_sign (d := '-') (by decide), no_sign (d := '+') (by decide), found]
  · exact absurd rfl power

theorem outer {p : Phrase} (starts : p.Starts cs) (h : ReadFully p cs e) : ReadFully p.outer cs e := by
  cases p with
  | primary =>
    intro rest follow
    obtain ⟨shorter, found⟩ := h rest (Phrase.Follow.of_outer (p := .primary) follow)
    refine ⟨shorter, ?_⟩
    rw [power?]
    simp only [found, follow.powerOperator?_eq_none]
  | power => exact unary_of_power starts h
  | unary =>
    intro rest follow
    obtain ⟨shorter, found⟩ := h rest follow
    refine ⟨Nat.lt_of_le_of_lt (moreFactors e rest).2.2 shorter, ?_⟩
    rw [product?]
    simp only [found]
  | product =>
    intro rest follow
    obtain ⟨shorter, found⟩ := product_end h follow
    refine ⟨Nat.lt_of_le_of_lt (moreTerms e rest).2.2 shorter, ?_⟩
    rw [sum?]
    simp only [found]
  | sum => exact h

end ReadFully

/-- Every phrase is read to its end. -/
theorem Written.readFully {p : Phrase} {cs : List Char} {e : Expr} (h : Written p cs e) :
    ReadFully p cs e := by
  have trimmed {cs : List Char} {e : Expr} (h : Written .sum cs e) : skipBlanks cs = cs := by
    simpa using h.starts.skipBlanks_append []
  induction h with
  | letter h => exact .letter h
  | number nonempty h => exact .number nonempty h
  | bracketed written ih => exact .bracketed (by rwa [trimmed written])
  | applied mem written ih => exact .applied mem (by rwa [trimmed written])
  | raised _ written base exponent => exact .raised written.starts base exponent
  | starred _ written base exponent => exact .starred written.starts base exponent
  | negated written ih => exact .negated written.starts ih
  | multiplied _ written first second =>
    exact .factor (by decide) written.starts first second fun rest =>
      reads_star (written.starts.skipBlanks_append rest) (written.starts.head?_append_ne_star rest)
  | divided _ written first second =>
    exact .factor (by decide) written.starts first second fun rest =>
      reads_slash (written.starts.skipBlanks_append rest)
  | added _ written first second =>
    exact .term (by decide) written.starts first second fun rest =>
      reads_plus (written.starts.skipBlanks_append rest)
  | subtracted _ written first second =>
    exact .term (by decide) written.starts first second fun rest =>
      reads_minus (written.starts.skipBlanks_append rest)
  | outer written ih => exact .outer written.starts ih

theorem parse_of_readFully {text : String} {e : Expr} (h : ReadFully .sum (skipBlanks text.toList) e) :
    parse text = .ok e := by
  have read := h.sum_end (.nil _)
  rw [List.append_nil] at read
  obtain ⟨_, found⟩ := read
  rw [parse]
  simp only [found]
  rfl

theorem parse_of_written {text : String} {e : Expr} (h : Written .sum text.toList e) :
    parse text = .ok e := by
  have trimmed := h.starts.skipBlanks_append []
  rw [List.append_nil] at trimmed
  apply parse_of_readFully
  rw [trimmed]
  exact h.readFully

end Tutor.Expr
