import Mathlib.Data.List.DropRight
import Mathlib.Tactic.SplitIfs
import Tutor.Proofs.Expr.Grammar

/-!
What the readers make of any text. Without the proof that it leaves less of the text, a reader is an
equation in which readers follow each other and take each other's place. By these equations whatever is
read was put together by the rules of the grammar, one reading of a part after the other: what holds of
every expression or of every rest that is read is an induction on these rules.
-/

set_option autoImplicit false
set_option relaxedAutoImplicit false

namespace Tutor.Expr

namespace Reader

open Number (decimalValue)

section Result

variable {α : Type}

def result (read : (cs : List Char) → Option (α × Shorter cs)) (cs : List Char) :
    Option (α × List Char) :=
  (read cs).map fun found => (found.1, found.2.1)

theorem result_eq_none_iff {read : (cs : List Char) → Option (α × Shorter cs)} {cs : List Char} :
    result read cs = none ↔ read cs = none := Option.map_eq_none_iff

theorem reads_iff {read : (cs : List Char) → Option (α × Shorter cs)} {cs rest : List Char} {a : α} :
    Reads read cs a rest ↔ result read cs = some (a, rest) := by
  constructor
  · rintro ⟨_, found⟩
    rw [result, found]
    rfl
  · intro h
    obtain ⟨⟨b, left, shorter⟩, found, same⟩ := Option.map_eq_some_iff.mp h
    cases same
    exact ⟨shorter, found⟩

theorem result_spaced? (read : (cs : List Char) → Option (α × Shorter cs)) (cs : List Char) :
    result (spaced? read) cs =
      (result read (skipBlanks cs)).map fun found => (found.1, skipBlanks found.2) := by
  rw [result, result, spaced?]
  cases read (skipBlanks cs) <;> rfl

theorem result_spaced?_eq_some_iff {read : (cs : List Char) → Option (α × Shorter cs)} {cs rest : List Char}
    {a : α} : result (spaced? read) cs = some (a, rest) ↔
      ∃ behind, result read (skipBlanks cs) = some (a, behind) ∧ rest = skipBlanks behind := by
  rw [result_spaced?, Option.map_eq_some_iff]
  constructor
  · rintro ⟨⟨b, behind⟩, found, same⟩
    cases same
    exact ⟨behind, found, rfl⟩
  · rintro ⟨behind, found, rfl⟩
    exact ⟨(a, behind), found, rfl⟩

end Result

def sumFrom (e : Expr) (cs : List Char) : Expr × List Char := ((moreTerms e cs).1, (moreTerms e cs).2.1)

def productFrom (e : Expr) (cs : List Char) : Expr × List Char :=
  ((moreFactors e cs).1, (moreFactors e cs).2.1)

theorem result_sum? (cs : List Char) :
    result sum? cs = (result product? cs).map fun first => sumFrom first.1 first.2 := by
  rw [result, result, sum?]
  cases product? cs <;> rfl

theorem result_product? (cs : List Char) :
    result product? cs = (result unary? cs).map fun first => productFrom first.1 first.2 := by
  rw [result, result, product?]
  cases unary? cs <;> rfl

/-- What an operator and the operand behind it are read as. -/
def joined {β γ : Type} (operator : (cs : List Char) → Option (β × Shorter cs))
    (operand : (cs : List Char) → Option (Expr × Shorter cs)) (node : β → Expr → γ) (cs : List Char) :
    Option (γ × List Char) :=
  (result operator cs).bind fun sign => (result operand sign.2).map fun found => (node sign.1 found.1, found.2)

theorem sumFrom_eq (e : Expr) (cs : List Char) :
    sumFrom e cs =
      ((joined sumOperator? product? (fun node term => node e term) cs).map fun found =>
        sumFrom found.1 found.2).getD (e, cs) := by
  rw [sumFrom, moreTerms]
  cases operator : sumOperator? cs with
  | none => simp [joined, result, operator]
  | some sign =>
    cases read : product? sign.2.1 with
    | none => simp [joined, result, operator, read]
    | some term => simp [joined, result, operator, read, sumFrom]

theorem productFrom_eq (e : Expr) (cs : List Char) :
    productFrom e cs =
      ((result factor? cs).map fun next => productFrom (next.1.1 e next.1.2) next.2).getD (e, cs) := by
  rw [productFrom, moreFactors, result]
  cases h : factor? cs <;> rfl

theorem result_factor? (cs : List Char) :
    result factor? cs = (joined productOperator? unary? Prod.mk cs).or
      ((result power? cs).map fun factor => ((Expr.mul, factor.1), factor.2)) := by
  rw [result, factor?, joined, result, result]
  cases productOperator? cs with
  | none => cases power? cs <;> rfl
  | some operator =>
    simp only [result, Option.map_some, Option.bind_some]
    cases unary? operator.2.1 <;> cases power? cs <;> rfl

theorem result_unary? (cs : List Char) :
    result unary? cs = (joined (symbol? '-') unary? (fun _ operand => .neg operand) cs).or
      ((joined (symbol? '+') unary? (fun _ operand => operand) cs).or (result power? cs)) := by
  rw [result, unary?, joined, joined, result, result]
  cases symbol? '-' cs with
  | none =>
    cases symbol? '+' cs with
    | none => rfl
    | some plus =>
      simp only [result, Option.map_some, Option.bind_some]
      cases unary? plus.2.1 <;> rfl
  | some minus =>
    simp only [result, Option.map_some, Option.bind_some]
    cases unary? minus.2.1 with
    | some operand => rfl
    | none =>
      cases symbol? '+' cs with
      | none => rfl
      | some plus =>
        simp only [Option.map_some, Option.bind_some]
        cases unary? plus.2.1 <;> rfl

theorem result_power? (cs : List Char) :
    result power? cs = (result primary? cs).map fun base =>
      (joined powerOperator? unary? (fun _ exponent => .pow base.1 exponent) base.2).getD base := by
  rw [result, power?, result]
  cases primary? cs with
  | none => rfl
  | some base =>
    simp only [joined, result, Option.map_some]
    cases powerOperator? base.2.1 with
    | none => rfl
    | some sign =>
      simp only [Option.map_some, Option.bind_some]
      cases unary? sign.2.1 <;> rfl

theorem result_primary? (cs : List Char) :
    result primary? cs =
      (result bracketed? cs).or ((result application? cs).or
        ((result number? cs).or (result letter? cs))) := by
  rw [result, primary?, result, result, result, result]
  cases bracketed? cs <;> cases application? cs <;> cases number? cs <;> rfl

theorem result_bracketed? (cs : List Char) :
    result bracketed? cs =
      (result (symbol? '(') cs).bind fun opening => (result sum? opening.2).bind fun inside =>
        (result (symbol? ')') inside.2).map fun closing => (inside.1, closing.2) := by
  rw [result, bracketed?, result]
  cases symbol? '(' cs with
  | none => rfl
  | some opening =>
    simp only [result, Option.map_some, Option.bind_some]
    cases sum? opening.2.1 with
    | none => rfl
    | some inside =>
      simp only [Option.map_some, Option.bind_some]
      cases symbol? ')' inside.2.1 <;> rfl

theorem result_application? (cs : List Char) :
    result application? cs =
      (result function? cs).bind fun name =>
        ((result bracketed? name.2).or (result power? name.2)).map fun argument =>
          (name.1 argument.1, argument.2) := by
  rw [result, application?, result]
  cases function? cs with
  | none => rfl
  | some name =>
    simp only [result, Option.map_some, Option.bind_some]
    cases bracketed? name.2.1 <;> cases power? name.2.1 <;> rfl

theorem result_number? (cs : List Char) :
    result number? cs = (result (spaced? bareNumber?) cs).map fun found => (.const found.1, found.2) := by
  rw [result, result, number?]
  cases spaced? bareNumber? cs <;> rfl

theorem result_letter? (cs : List Char) :
    result letter? cs =
      (result (spaced? (one? Char.isAlpha)) cs).map fun found =>
        (.var (String.singleton found.1), found.2) := by
  rw [result, result, letter?]
  cases spaced? (one? Char.isAlpha) cs <;> rfl


/-! What the small readers find, and the characters that they take. -/

def operators : List Char := ['+', '-', '*', '/', '^']

section Taken

variable {α : Type} {read : (cs : List Char) → Option (α × Shorter cs)} {cs rest : List Char} {a : α}
  {p q : Char → Prop}

theorem length_lt_of_result (h : result read cs = some (a, rest)) : rest.length < cs.length :=
  (reads_iff.mpr h).1

theorem ne_nil_of_result (h : result read cs = some (a, rest)) : cs ≠ [] := by
  rintro rfl
  exact absurd (length_lt_of_result h) (Nat.not_lt_zero _)

theorem skipBlanks_idem (cs : List Char) : skipBlanks (skipBlanks cs) = skipBlanks cs :=
  List.dropWhile_idempotent _ _

/-- A reader takes at least one character, and only some of a class. -/
def Takes (p : Char → Prop) (read : (cs : List Char) → Option (α × Shorter cs)) : Prop :=
  ∀ ⦃cs a rest⦄, result read cs = some (a, rest) →
    ∃ used, used ≠ [] ∧ (∀ c ∈ used, p c) ∧ cs = used ++ rest

theorem Takes.mono (h : Takes p read) (sub : ∀ c, p c → q c) : Takes q read := by
  intro cs a rest found
  obtain ⟨used, nonempty, used_class, rfl⟩ := h found
  exact ⟨used, nonempty, fun c hc => sub c (used_class c hc), rfl⟩

theorem result_one?_eq_some_iff {test : Char → Bool} {c : Char} :
    result (one? test) cs = some (c, rest) ↔ cs = c :: rest ∧ test c = true := by
  rcases cs with _ | ⟨d, ds⟩
  · simp [result, one?]
  · by_cases h : test d = true
    · simp only [result, one?, if_pos h, Option.map_some, Option.some.injEq, Prod.mk.injEq, List.cons.injEq]
      constructor
      · rintro ⟨rfl, rfl⟩
        exact ⟨⟨rfl, rfl⟩, h⟩
      · exact fun same => same.1
    · simp only [result, one?, if_neg h, Option.map_none, reduceCtorEq, List.cons.injEq, false_iff]
      rintro ⟨⟨rfl, -⟩, hd⟩
      exact h hd

theorem takes_one? (test : Char → Bool) : Takes (test · = true) (one? test) := by
  intro cs c rest h
  obtain ⟨rfl, passed⟩ := result_one?_eq_some_iff.mp h
  exact ⟨[c], by simp, by simpa using passed, rfl⟩

theorem result_bareProductOperator?_cons (c : Char) (cs : List Char) :
    result bareProductOperator? (c :: cs) =
      if c = '*' then if cs.head? = some '*' then none else some (.mul, cs)
      else if c = '/' then some (.div, cs) else none := by
  by_cases star : c = '*'
  · subst star
    by_cases second : cs.head? = some '*'
    · obtain ⟨text, rfl⟩ := List.head?_eq_some_iff.mp second
      rfl
    · have single : ∀ text, cs = '*' :: text → False := by
        rintro text rfl
        exact second rfl
      rw [result, bareProductOperator?.eq_2 cs single, if_pos rfl, if_neg second]
      rfl
  · by_cases slash : c = '/'
    · subst slash
      rfl
    · rw [result, bareProductOperator?.eq_4 _ (by simp [star]) (by simp [star]) (by simp [slash]),
        if_neg star, if_neg slash]
      rfl

theorem result_barePowerOperator?_cons (c : Char) (cs : List Char) :
    result barePowerOperator? (c :: cs) =
      if c = '*' ∧ cs.head? = some '*' then some ((), cs.tail)
      else if c = '^' then some ((), cs) else none := by
  by_cases caret : c = '^'
  · subst caret
    rfl
  · by_cases stars : c = '*' ∧ cs.head? = some '*'
    · obtain ⟨rfl, second⟩ := stars
      obtain ⟨text, rfl⟩ := List.head?_eq_some_iff.mp second
      rfl
    · have single : ∀ text, c :: cs = '*' :: '*' :: text → False := by
        rintro text ⟨⟩
        exact stars ⟨rfl, rfl⟩
      rw [result, barePowerOperator?.eq_3 _ single (by simp [caret]), if_neg stars, if_neg caret]
      rfl

theorem exists_of_functionOf? {table : List (List Char × (Expr → Expr))} {node : Expr → Expr}
    (h : result (functionOf? table) cs = some (node, rest)) :
    ∃ name, (name, node) ∈ table ∧ name ≠ [] ∧ cs = name ++ rest := by
  induction table with
  | nil => cases h
  | cons entry others ih =>
    obtain ⟨name, first⟩ := entry
    have later (h : result (functionOf? others) cs = some (node, rest)) :
        ∃ other, (other, node) ∈ (name, first) :: others ∧ other ≠ [] ∧ cs = other ++ rest := by
      obtain ⟨other, mem, found⟩ := ih h
      exact ⟨other, List.mem_cons_of_mem _ mem, found⟩
    obtain ⟨shorter, h⟩ := reads_iff.mpr h
    unfold functionOf? at h
    split_ifs at h with nonempty
    · split at h
      · rename_i left word
        cases h
        unfold word? at word
        split_ifs at word with start
        cases word
        obtain ⟨behind, rfl⟩ := List.isPrefixOf_iff_prefix.mp start
        exact ⟨name, List.mem_cons_self, nonempty, by simp⟩
      · exact later (reads_iff.mp ⟨shorter, h⟩)
    · exact later (reads_iff.mp ⟨shorter, h⟩)

theorem result_bareNumber? (cs : List Char) :
    result bareNumber? cs =
      if (splitDigits cs).1 = [] then none
      else if (splitDigits cs).2.head? = some '.' ∧ (splitDigits (splitDigits cs).2.tail).1 ≠ [] then
        some (decimalValue (splitDigits cs).1 (splitDigits (splitDigits cs).2.tail).1,
          (splitDigits (splitDigits cs).2.tail).2)
      else some (decimalValue (splitDigits cs).1 [], (splitDigits cs).2) := by
  rw [result, bareNumber?]
  by_cases whole : (splitDigits cs).1 = []
  · rw [dif_neg (not_not_intro whole), if_pos whole]
    rfl
  rw [dif_pos whole, if_neg whole]
  split
  · rename_i rest point
    simp only [point, List.head?_cons, List.tail_cons, true_and]
    split_ifs <;> rfl
  · rename_i no_point
    rw [if_neg]
    · rfl
    · rintro ⟨point, -⟩
      obtain ⟨rest, same⟩ := List.head?_eq_some_iff.mp point
      exact no_point rest same

theorem takes_bareProductOperator? : Takes (· ∈ operators) bareProductOperator? := by
  intro cs node rest h
  obtain ⟨c, cs, rfl⟩ := List.exists_cons_of_ne_nil (ne_nil_of_result h)
  rw [result_bareProductOperator?_cons] at h
  split_ifs at h with star second slash
  · cases h
    exact ⟨[c], by simp, by simp [operators, star], rfl⟩
  · cases h
    exact ⟨[c], by simp, by simp [operators, slash], rfl⟩

theorem takes_barePowerOperator? : Takes (· ∈ operators) barePowerOperator? := by
  intro cs _ rest h
  obtain ⟨c, cs, rfl⟩ := List.exists_cons_of_ne_nil (ne_nil_of_result h)
  rw [result_barePowerOperator?_cons] at h
  split_ifs at h with stars caret
  · cases h
    obtain ⟨rfl, second⟩ := stars
    obtain ⟨behind, rfl⟩ := List.head?_eq_some_iff.mp second
    exact ⟨['*', '*'], by simp, by simp [operators], rfl⟩
  · cases h
    exact ⟨[c], by simp, by simp [operators, caret], rfl⟩

theorem takes_functionOf? {table : List (List Char × (Expr → Expr))}
    (names : ∀ entry ∈ table, ∀ c ∈ entry.1, p c) : Takes p (functionOf? table) := by
  intro cs node rest h
  obtain ⟨name, mem, nonempty, join⟩ := exists_of_functionOf? h
  exact ⟨name, nonempty, names _ mem, join⟩

private theorem mem_splitDigits {c : Char} (h : c ∈ (splitDigits cs).1) : c.isDigit = true :=
  List.mem_takeWhile_imp h

private theorem splitDigits_join (cs : List Char) : (splitDigits cs).1 ++ (splitDigits cs).2 = cs :=
  List.takeWhile_append_dropWhile

theorem takes_bareNumber? : Takes (fun c => c.isDigit = true ∨ c = '.') bareNumber? := by
  intro cs value rest h
  have joined := splitDigits_join cs
  rw [result_bareNumber?] at h
  split_ifs at h with whole fraction
  · cases h
    obtain ⟨behind, point⟩ := List.head?_eq_some_iff.mp fraction.1
    rw [point, List.tail_cons]
    refine ⟨(splitDigits cs).1 ++ '.' :: (splitDigits behind).1, by simp, ?_, ?_⟩
    · intro c hc
      rcases List.mem_append.mp hc with digit | hc
      · exact .inl (mem_splitDigits digit)
      · exact (List.mem_cons.mp hc).symm.imp_left mem_splitDigits
    · rw [List.append_assoc, List.cons_append, splitDigits_join, ← point, joined]
  · cases h
    exact ⟨(splitDigits cs).1, whole, fun c hc => .inl (mem_splitDigits hc), joined.symm⟩

theorem exists_of_result_spaced? (takes : Takes p read)
    (h : result (spaced? read) cs = some (a, rest)) :
    ∃ used behind, used ≠ [] ∧ (∀ c ∈ used, p c) ∧ skipBlanks cs = used ++ behind ∧ rest = skipBlanks behind := by
  obtain ⟨behind, found, rfl⟩ := result_spaced?_eq_some_iff.mp h
  obtain ⟨used, nonempty, used_class, join⟩ := takes found
  exact ⟨used, behind, nonempty, used_class, join, rfl⟩

theorem result_symbol?_eq_some_iff {c d : Char} :
    result (symbol? c) cs = some (d, rest) ↔
      d = c ∧ ∃ behind, skipBlanks cs = c :: behind ∧ rest = skipBlanks behind := by
  rw [symbol?, result_spaced?_eq_some_iff]
  constructor
  · rintro ⟨behind, found, rfl⟩
    obtain ⟨join, hd⟩ := result_one?_eq_some_iff.mp found
    exact ⟨eq_of_beq hd, behind, eq_of_beq hd ▸ join, rfl⟩
  · rintro ⟨rfl, behind, join, rfl⟩
    exact ⟨behind, result_one?_eq_some_iff.mpr ⟨join, by simp⟩, rfl⟩

theorem result_sumOperator?_eq_some_iff {node : Expr → Expr → Expr} :
    result sumOperator? cs = some (node, rest) ↔
      ∃ c behind, (c = '+' ∧ node = .add ∨ c = '-' ∧ node = .sub) ∧ skipBlanks cs = c :: behind ∧
        rest = skipBlanks behind := by
  rw [sumOperator?, result_spaced?, result]
  generalize skipBlanks cs = ds
  rcases ds with _ | ⟨c, ds⟩
  · simp [one?]
  by_cases plus : c = '+'
  · subst plus
    simp [one?, eq_comm]
  by_cases minus : c = '-'
  · subst minus
    simp [one?, eq_comm]
  · simp [one?, plus, minus]

theorem node_of_productOperator? {node : Expr → Expr → Expr}
    (h : result productOperator? cs = some (node, rest)) : node = .mul ∨ node = .div := by
  obtain ⟨behind, bare, -⟩ := result_spaced?_eq_some_iff.mp h
  obtain ⟨c, ds, join⟩ := List.exists_cons_of_ne_nil (ne_nil_of_result bare)
  rw [join, result_bareProductOperator?_cons] at bare
  split_ifs at bare <;> cases bare
  · exact .inl rfl
  · exact .inr rfl

theorem exists_of_number? {e : Expr} (h : result number? cs = some (e, rest)) :
    ∃ value behind, e = .const value ∧ result bareNumber? (skipBlanks cs) = some (value, behind) ∧
      rest = skipBlanks behind := by
  rw [result_number?] at h
  obtain ⟨⟨value, left⟩, read, same⟩ := Option.map_eq_some_iff.mp h
  cases same
  obtain ⟨behind, bare, rfl⟩ := result_spaced?_eq_some_iff.mp read
  exact ⟨value, behind, rfl, bare, rfl⟩

theorem exists_of_letter? {e : Expr} (h : result letter? cs = some (e, rest)) :
    ∃ c behind, skipBlanks cs = c :: behind ∧ c.isAlpha = true ∧ e = .var (String.singleton c) ∧
      rest = skipBlanks behind := by
  rw [result_letter?] at h
  obtain ⟨⟨c, left⟩, read, same⟩ := Option.map_eq_some_iff.mp h
  cases same
  obtain ⟨behind, bare, rfl⟩ := result_spaced?_eq_some_iff.mp read
  obtain ⟨join, letter⟩ := result_one?_eq_some_iff.mp bare
  exact ⟨c, behind, join, letter, rfl, rfl⟩

end Taken

/-! A reader of several parts. -/

section Joined

variable {β γ : Type} {operator : (cs : List Char) → Option (β × Shorter cs)}
  {operand : (cs : List Char) → Option (Expr × Shorter cs)} {node : β → Expr → γ} {found : γ}
  {cs rest : List Char}

theorem joined_eq_some_iff :
    joined operator operand node cs = some (found, rest) ↔
      ∃ b between e, result operator cs = some (b, between) ∧ result operand between = some (e, rest) ∧
        found = node b e := by
  rw [joined, Option.bind_eq_some_iff]
  constructor
  · rintro ⟨⟨b, between⟩, sign, operand_read⟩
    obtain ⟨⟨e, _⟩, read, same⟩ := Option.map_eq_some_iff.mp operand_read
    cases same
    exact ⟨b, between, e, sign, read, rfl⟩
  · rintro ⟨b, between, e, sign, read, rfl⟩
    exact ⟨(b, between), sign, by rw [read]; rfl⟩

theorem joined_eq_none (h : operator cs = none) (operand : (cs : List Char) → Option (Expr × Shorter cs))
    (node : β → Expr → γ) : joined operator operand node cs = none := by
  rw [joined, result_eq_none_iff.mpr h]
  rfl

theorem length_lt_of_joined (h : joined operator operand node cs = some (found, rest)) :
    rest.length < cs.length := by
  obtain ⟨b, between, e, sign, read, rfl⟩ := joined_eq_some_iff.mp h
  exact Nat.lt_trans (length_lt_of_result read) (length_lt_of_result sign)

end Joined

/-- The start of a text was read as a phrase that stands for a tree, and this is left of it. -/
inductive Parsed : Phrase → List Char → Expr → List Char → Prop
  | bracketed {cs inside behind rest : List Char} {c d : Char} {e : Expr}
    (found : result bracketed? cs = some (e, rest)) (opening : result (symbol? '(') cs = some (c, inside))
    (h : Parsed .sum inside e behind) (closing : result (symbol? ')') behind = some (d, rest)) :
    Parsed .primary cs e rest
  | applied {cs argument rest : List Char} {node : Expr → Expr} {e : Expr}
    (name : result function? cs = some (node, argument)) (h : Parsed .power argument e rest) :
    Parsed .primary cs (node e) rest
  | number {cs rest : List Char} {e : Expr} (h : result number? cs = some (e, rest)) : Parsed .primary cs e rest
  | letter {cs rest : List Char} {e : Expr} (unapplied : result application? cs = none)
    (h : result letter? cs = some (e, rest)) : Parsed .primary cs e rest
  | raised {cs behind operand rest : List Char} {a b : Expr} {u : Unit} (base : Parsed .primary cs a behind)
    (sign : result powerOperator? behind = some (u, operand)) (exponent : Parsed .unary operand b rest) :
    Parsed .power cs (.pow a b) rest
  | negated {cs operand rest : List Char} {c : Char} {e : Expr}
    (sign : result (symbol? '-') cs = some (c, operand)) (h : Parsed .unary operand e rest) :
    Parsed .unary cs (.neg e) rest
  | plus {cs operand rest : List Char} {c : Char} {e : Expr}
    (sign : result (symbol? '+') cs = some (c, operand)) (h : Parsed .unary operand e rest) :
    Parsed .unary cs e rest
  | factor {cs behind operand rest : List Char} {a b : Expr} {node : Expr → Expr → Expr}
    (first : Parsed .product cs a behind) (sign : result productOperator? behind = some (node, operand))
    (second : Parsed .unary operand b rest) : Parsed .product cs (node a b) rest
  | beside {cs behind rest : List Char} {a b : Expr} (first : Parsed .product cs a behind)
    (second : Parsed .power behind b rest) : Parsed .product cs (.mul a b) rest
  | term {cs behind operand rest : List Char} {a b : Expr} {node : Expr → Expr → Expr}
    (first : Parsed .sum cs a behind) (sign : result sumOperator? behind = some (node, operand))
    (second : Parsed .product operand b rest) : Parsed .sum cs (node a b) rest
  | outer {p : Phrase} {cs rest : List Char} {e : Expr} (h : Parsed p cs e rest) : Parsed p.outer cs e rest

/-- Whatever the readers make of a text was put together by the rules. Further terms and factors continue
what was read before them. -/
structure ReadsParsed (cs : List Char) : Prop where
  sum {e : Expr} {rest : List Char} (h : result sum? cs = some (e, rest)) : Parsed .sum cs e rest
  sumFrom {start : List Char} {a : Expr} (h : Parsed .sum start a cs) :
    Parsed .sum start (sumFrom a cs).1 (sumFrom a cs).2
  product {e : Expr} {rest : List Char} (h : result product? cs = some (e, rest)) : Parsed .product cs e rest
  productFrom {start : List Char} {a : Expr} (h : Parsed .product start a cs) :
    Parsed .product start (productFrom a cs).1 (productFrom a cs).2
  unary {e : Expr} {rest : List Char} (h : result unary? cs = some (e, rest)) : Parsed .unary cs e rest
  power {e : Expr} {rest : List Char} (h : result power? cs = some (e, rest)) : Parsed .power cs e rest
  bracketed {e : Expr} {rest : List Char} (h : result bracketed? cs = some (e, rest)) :
    Parsed .primary cs e rest

section Step

variable {cs start rest : List Char} {a e : Expr} (ih : ∀ {ds}, ds.length < cs.length → ReadsParsed ds)
include ih

private theorem parsed_of_bracketed? (h : result bracketed? cs = some (e, rest)) : Parsed .primary cs e rest := by
  have found := h
  rw [result_bracketed?] at h
  obtain ⟨⟨_, inside⟩, opening, h⟩ := Option.bind_eq_some_iff.mp h
  obtain ⟨⟨_, behind⟩, read, h⟩ := Option.bind_eq_some_iff.mp h
  obtain ⟨⟨_, final⟩, closing, same⟩ := Option.map_eq_some_iff.mp h
  cases same
  exact .bracketed found opening ((ih (length_lt_of_result opening)).sum read) closing

private theorem parsed_of_application? (h : result application? cs = some (e, rest)) : Parsed .primary cs e rest := by
  rw [result_application?] at h
  obtain ⟨⟨node, argument⟩, name, h⟩ := Option.bind_eq_some_iff.mp h
  obtain ⟨⟨_, _⟩, read, same⟩ := Option.map_eq_some_iff.mp h
  cases same
  have inner := ih (length_lt_of_result name)
  rcases Option.or_eq_some_iff.mp read with bracketed | ⟨-, power⟩
  · exact .applied name (.outer (p := .primary) (inner.bracketed bracketed))
  · exact .applied name (inner.power power)

theorem parsed_of_primary? (h : result primary? cs = some (e, rest)) : Parsed .primary cs e rest := by
  rw [result_primary?] at h
  rcases Option.or_eq_some_iff.mp h with bracketed | ⟨-, h⟩
  · exact parsed_of_bracketed? ih bracketed
  rcases Option.or_eq_some_iff.mp h with application | ⟨unapplied, h⟩
  · exact parsed_of_application? ih application
  rcases Option.or_eq_some_iff.mp h with number | ⟨-, letter⟩
  · exact .number number
  · exact .letter unapplied letter

private theorem parsed_of_power? (h : result power? cs = some (e, rest)) : Parsed .power cs e rest := by
  rw [result_power?] at h
  obtain ⟨⟨base, behind⟩, read, same⟩ := Option.map_eq_some_iff.mp h
  have first := parsed_of_primary? ih read
  dsimp only at same
  cases raised : joined powerOperator? unary? (fun _ exponent => Expr.pow base exponent) behind with
  | none =>
    rw [raised] at same
    cases same
    exact .outer (p := .primary) first
  | some found =>
    rw [raised] at same
    cases same
    obtain ⟨_, operand, exponent, sign, exponent_read, rfl⟩ := joined_eq_some_iff.mp raised
    have shorter := Nat.lt_trans (length_lt_of_result sign) (length_lt_of_result read)
    exact .raised first sign ((ih shorter).unary exponent_read)

private theorem parsed_of_unary? (h : result unary? cs = some (e, rest)) : Parsed .unary cs e rest := by
  rw [result_unary?] at h
  rcases Option.or_eq_some_iff.mp h with negative | ⟨-, h⟩
  · obtain ⟨_, operand, _, sign, read, rfl⟩ := joined_eq_some_iff.mp negative
    exact .negated sign ((ih (length_lt_of_result sign)).unary read)
  rcases Option.or_eq_some_iff.mp h with positive | ⟨-, power⟩
  · obtain ⟨_, operand, _, sign, read, rfl⟩ := joined_eq_some_iff.mp positive
    exact .plus sign ((ih (length_lt_of_result sign)).unary read)
  · exact .outer (p := .power) (parsed_of_power? ih power)

private theorem parsed_of_factor? {node : Expr → Expr → Expr} (first : Parsed .product start a cs)
    (h : result factor? cs = some ((node, e), rest)) : Parsed .product start (node a e) rest := by
  rw [result_factor?] at h
  rcases Option.or_eq_some_iff.mp h with operated | ⟨-, beside⟩
  · obtain ⟨_, operand, _, sign, read, same⟩ := joined_eq_some_iff.mp operated
    cases same
    exact .factor first sign ((ih (length_lt_of_result sign)).unary read)
  · obtain ⟨⟨_, _⟩, read, same⟩ := Option.map_eq_some_iff.mp beside
    cases same
    exact .beside first (parsed_of_power? ih read)

private theorem parsed_productFrom (first : Parsed .product start a cs) :
    Parsed .product start (productFrom a cs).1 (productFrom a cs).2 := by
  rw [productFrom_eq]
  cases read : result factor? cs with
  | none => exact first
  | some next =>
    obtain ⟨⟨node, factor⟩, behind⟩ := next
    exact (ih (length_lt_of_result read)).productFrom (parsed_of_factor? ih first read)

private theorem parsed_of_product? (h : result product? cs = some (e, rest)) : Parsed .product cs e rest := by
  rw [result_product?] at h
  obtain ⟨⟨first, behind⟩, read, same⟩ := Option.map_eq_some_iff.mp h
  have further := (ih (length_lt_of_result read)).productFrom (.outer (p := .unary) (parsed_of_unary? ih read))
  rwa [show productFrom first behind = (e, rest) from same] at further

private theorem parsed_sumFrom (first : Parsed .sum start a cs) :
    Parsed .sum start (sumFrom a cs).1 (sumFrom a cs).2 := by
  rw [sumFrom_eq]
  cases read : joined sumOperator? product? (fun node term => node a term) cs with
  | none => exact first
  | some found =>
    obtain ⟨sum, behind⟩ := found
    obtain ⟨node, operand, term, sign, term_read, rfl⟩ := joined_eq_some_iff.mp read
    have second := (ih (length_lt_of_result sign)).product term_read
    exact (ih (length_lt_of_joined read)).sumFrom (.term first sign second)

private theorem parsed_of_sum? (h : result sum? cs = some (e, rest)) : Parsed .sum cs e rest := by
  rw [result_sum?] at h
  obtain ⟨⟨first, behind⟩, read, same⟩ := Option.map_eq_some_iff.mp h
  have further := (ih (length_lt_of_result read)).sumFrom (.outer (p := .product) (parsed_of_product? ih read))
  rwa [show sumFrom first behind = (e, rest) from same] at further

end Step

theorem readsParsed (cs : List Char) : ReadsParsed cs := by
  induction hn : cs.length using Nat.strongRecOn generalizing cs with
  | ind n ih =>
    subst hn
    have shorter {ds : List Char} (h : ds.length < cs.length) : ReadsParsed ds := ih _ h ds rfl
    exact
      { sum := parsed_of_sum? shorter
        sumFrom := parsed_sumFrom shorter
        product := parsed_of_product? shorter
        productFrom := parsed_productFrom shorter
        unary := parsed_of_unary? shorter
        power := parsed_of_power? shorter
        bracketed := parsed_of_bracketed? shorter }

theorem Parsed.ne_nil {p : Phrase} {cs rest : List Char} {e : Expr} (h : Parsed p cs e rest) : cs ≠ [] := by
  induction h with
  | bracketed found => exact ne_nil_of_result found
  | applied name => exact ne_nil_of_result name
  | number h | letter _ h => exact ne_nil_of_result h
  | raised _ _ _ ih => exact ih
  | negated sign | plus sign => exact ne_nil_of_result sign
  | factor _ _ _ ih | term _ _ _ ih => exact ih
  | beside _ _ ih => exact ih
  | outer _ ih => exact ih

end Reader

open Reader

theorem exists_of_parse {text : String} {e : Expr} (h : parse text = .ok e) :
    ∃ rest, result sum? (skipBlanks text.toList) = some (e, rest) ∧ skipBlanks rest = [] := by
  unfold parse at h
  dsimp only at h
  split at h
  · cases h
  · rename_i found rest read
    split at h
    · rename_i blank
      cases h
      exact ⟨rest.1, by rw [result, read]; rfl, blank⟩
    · cases h

end Tutor.Expr
