import Tutor.Proofs.Expr.Continuation

/-!
Expressions put together from the texts of their parts. A text that is read as an expression is read so in
brackets, and behind a text that is read as an expression, whatever its own signs and operators are; so
brackets and an operator between two such texts give the node of the operator over their expressions.
-/

set_option autoImplicit false
set_option relaxedAutoImplicit false

namespace Tutor.Expr

open Reader

variable {cs : List Char} {text l r : String} {a b e : Expr}

private theorem ReadFully.toSum {p : Phrase} (starts : p.Starts cs) (h : ReadFully p cs e) : ReadFully .sum cs e := by
  cases p with
  | primary =>
    exact (((h.outer starts).outer starts.outer).outer starts.outer.outer).outer starts.outer.outer.outer
  | power => exact ((h.outer starts).outer starts.outer).outer starts.outer.outer
  | unary => exact (h.outer starts).outer starts.outer
  | product => exact h.outer starts
  | sum => exact h

/-- A text is read as an expression exactly if all of it, but for blanks in front, is read as that sum
wherever it stands. -/
private theorem parse_eq_ok_iff : parse text = .ok e ↔ ReadFully .sum (skipBlanks text.toList) e :=
  ⟨readFully_of_parse, parse_of_readFully⟩

private theorem parse_of_phrase {p : Phrase} (join : text.toList = cs) (starts : p.Starts cs)
    (h : ReadFully p cs e) : parse text = .ok e := by
  have trimmed := starts.skipBlanks_append []
  rw [List.append_nil] at trimmed
  rw [parse_eq_ok_iff, join, trimmed]
  exact h.toSum starts

def enclosed (text : String) : List Char := '(' :: (text.toList ++ [')'])

private theorem starts_enclosed (p : Phrase) (text : String) : p.Starts (enclosed text) := ⟨'(', _, rfl, .inl rfl⟩

private theorem starts_enclosed_append (p : Phrase) (text : String) (cs : List Char) : p.Starts (enclosed text ++ cs) :=
  ⟨'(', _, rfl, .inl rfl⟩

/-! Texts that are read as expressions, in brackets. -/

section Enclosed

private theorem readFully_enclosed (h : parse text = .ok e) : ReadFully .primary (enclosed text) e :=
  .bracketed (readFully_of_parse h)

private theorem readFully_enclosed_power (h : parse text = .ok e) : ReadFully .power (enclosed text) e :=
  (readFully_enclosed h).outer (starts_enclosed .primary text)

private theorem readFully_enclosed_unary (h : parse text = .ok e) : ReadFully .unary (enclosed text) e :=
  (readFully_enclosed_power h).outer (starts_enclosed .power text)

private theorem readFully_enclosed_product (h : parse text = .ok e) : ReadFully .product (enclosed text) e :=
  (readFully_enclosed_unary h).outer (starts_enclosed .unary text)

private theorem result_unary?_enclosed (h : parse text = .ok e) (rest : List Char) :
    result unary? (enclosed text ++ '(' :: rest) = some (e, '(' :: rest) := by
  have bracketed : result bracketed? (enclosed text ++ '(' :: rest) = some (e, '(' :: rest) := by
    have read := ReadFully.brackets (readFully_of_parse h) (skipBlanks_cons (c := '(') (by decide) rest)
    rw [reads_iff] at read
    rw [enclosed, List.cons_append, List.append_assoc]
    exact read
  have primary : result primary? (enclosed text ++ '(' :: rest) = some (e, '(' :: rest) := by
    rw [result_primary?, bracketed, Option.some_or]
  have no_power : powerOperator? ('(' :: rest) = none :=
    spaced?_eq_none (by rfl) (skipBlanks_cons (by decide) rest)
  have no_sign {c : Char} (other : c ≠ '(') : symbol? c (enclosed text ++ '(' :: rest) = none :=
    symbol?_eq_none (by simp [enclosed, other.symm]) (skipBlanks_cons (by decide) _)
  rw [result_unary?, joined_eq_none (no_sign (by decide)), joined_eq_none (no_sign (by decide)), Option.none_or,
    Option.none_or, result_power?, primary, Option.map_some, joined_eq_none no_power]
  rfl

private theorem readFully_beside (hl : parse l = .ok a) (hr : parse r = .ok b) :
    ReadFully .product (enclosed l ++ enclosed r) (.mul a b) := by
  intro rest follow
  have factor := readFully_enclosed_power hr rest (.of_outer (p := .power) follow)
  rw [reads_iff] at factor
  have no_operator : productOperator? (enclosed r ++ rest) = none :=
    spaced?_eq_none (by rfl) (skipBlanks_cons (by decide) _)
  have further : productFrom a (enclosed r ++ rest) = productFrom (.mul a b) rest := by
    rw [productFrom_eq, result_factor?, joined_eq_none no_operator, factor]
    rfl
  have first : result unary? (enclosed l ++ (enclosed r ++ rest)) = some (a, enclosed r ++ rest) :=
    result_unary?_enclosed hl _
  rw [reads_iff, List.append_assoc, result_product?, first, Option.map_some]
  exact congrArg some further

private theorem parse_signed {c : Char} {node : Expr → Expr → Expr} (stop : c ∈ Phrase.product.stops)
    (operator : ∀ {rest}, skipBlanks rest = rest → Reads sumOperator? (c :: rest) node rest)
    (hl : parse l = .ok a) (hr : parse r = .ok b) (join : text.toList = l.toList ++ c :: enclosed r) :
    parse text = .ok (node a b) := by
  have starts := starts_enclosed .product r
  have sum := ReadFully.term stop starts (readFully_of_parse hl) (readFully_enclosed_product hr) fun rest =>
    operator (starts.skipBlanks_append rest)
  have trimmed : skipBlanks (c :: enclosed r) = c :: enclosed r := by
    have follow : Phrase.product.Follow (c :: enclosed r) := .cons stop fun _ _ => by simp [enclosed]
    exact follow.skipBlanks
  rw [parse_eq_ok_iff, join, skipBlanks_append trimmed]
  exact sum

private theorem parse_operated {c : Char} {node : Expr → Expr → Expr} (stop : c ∈ Phrase.unary.stops)
    (operator : ∀ {rest}, skipBlanks rest = rest → rest.head? ≠ some '*' →
      Reads productOperator? (c :: rest) node rest)
    (hl : parse l = .ok a) (hr : parse r = .ok b) (join : text.toList = enclosed l ++ c :: enclosed r) :
    parse text = .ok (node a b) := by
  have starts := starts_enclosed .unary r
  have product := ReadFully.factor stop starts (readFully_enclosed_product hl) (readFully_enclosed_unary hr)
    fun rest => operator (starts.skipBlanks_append rest) (starts.head?_append_ne_star rest)
  exact parse_of_phrase join (starts_enclosed_append .product l _) product

private theorem parse_applied {name : List Char} {node : Expr → Expr} (mem : (name, node) ∈ functions)
    (h : parse l = .ok a) (join : text.toList = name ++ enclosed l) : parse text = .ok (node a) := by
  obtain ⟨c, letters, rfl, letter⟩ := exists_cons_of_mem_functions mem
  have starts : Phrase.primary.Starts (c :: letters ++ enclosed l) :=
    ⟨c, _, rfl, .inl (startsOperand_of_isAlpha letter)⟩
  exact parse_of_phrase join starts (.applied mem (readFully_of_parse h))

end Enclosed

/-- Reading is compositional: in brackets, texts that are read as expressions are read as the operands of
the operator between them, of the sign in front or of the function name in front. The first operand of a sum
or a difference needs no brackets. -/
theorem parse_composed (hl : parse l = .ok a) (hr : parse r = .ok b) :
    parse (l ++ "+(" ++ r ++ ")") = .ok (.add a b) ∧
    parse (l ++ "-(" ++ r ++ ")") = .ok (.sub a b) ∧
    parse ("(" ++ l ++ ")*(" ++ r ++ ")") = .ok (.mul a b) ∧
    parse ("(" ++ l ++ ")(" ++ r ++ ")") = .ok (.mul a b) ∧
    parse ("(" ++ l ++ ")/(" ++ r ++ ")") = .ok (.div a b) ∧
    parse ("(" ++ l ++ ")^(" ++ r ++ ")") = .ok (.pow a b) ∧
    parse ("(" ++ l ++ ")**(" ++ r ++ ")") = .ok (.pow a b) ∧
    parse ("-(" ++ l ++ ")") = .ok (.neg a) ∧
    ∀ entry ∈ [("sqrt", fun x => Expr.pow x (.const (1 / 2))), ("sin", Expr.sin), ("cos", Expr.cos),
      ("tan", Expr.tan), ("exp", Expr.exp), ("log", Expr.log), ("ln", Expr.log)],
      parse (entry.1 ++ "(" ++ l ++ ")") = .ok (entry.2 a) := by
  have exponent := starts_enclosed .unary r
  refine ⟨?_, ?_, ?_, ?_, ?_, ?_, ?_, ?_, ?_⟩
  · exact parse_signed (by decide) reads_plus hl hr (by simp [enclosed])
  · exact parse_signed (by decide) reads_minus hl hr (by simp [enclosed])
  · exact parse_operated (by decide) reads_star hl hr (by simp [enclosed])
  · exact parse_of_phrase (by simp [enclosed]) (starts_enclosed_append .product l _)
      (readFully_beside hl hr)
  · exact parse_operated (by decide) (fun behind _ => reads_slash behind) hl hr (by simp [enclosed])
  · exact parse_of_phrase (by simp [enclosed]) (starts_enclosed_append .power l _)
      (.raised exponent (readFully_enclosed hl) (readFully_enclosed_unary hr))
  · exact parse_of_phrase (by simp [enclosed]) (starts_enclosed_append .power l _)
      (.starred exponent (readFully_enclosed hl) (readFully_enclosed_unary hr))
  · exact parse_of_phrase (by simp [enclosed]) ⟨'-', _, rfl, .inr ⟨rfl, by decide, by decide⟩⟩
      (.negated (starts_enclosed .unary l) (readFully_enclosed_unary hl))
  · intro entry mem
    have named : (entry.1.toList, entry.2) ∈ functions :=
      List.mem_map_of_mem (f := fun entry => (entry.1.toList, entry.2)) mem
    exact parse_applied named hl (by simp [enclosed])

/-- The signs of a difference behind a blank and of a sum stay inside their brackets. -/
theorem parse_composed_signs :
    let a : Expr := .sub (.const 1) (.var "x")
    let b : Expr := .add (.neg (.var "y")) (.const 2)
    (parse " 1-x" = .ok a ∧ parse "-y+2" = .ok b) ∧
      parse " 1-x-(-y+2)" = .ok (.sub a b) ∧ parse "( 1-x)(-y+2)" = .ok (.mul a b) ∧
      parse "( 1-x)**(-y+2)" = .ok (.pow a b) ∧ parse "ln( 1-x)" = .ok (.log a) := by
  intro a b
  have digit {d : Char} (q : Rat) (hd : d.isDigit = true) (value : Number.decimalValue [d] [] = q) :
      Written .primary [d] (.const q) :=
    value ▸ .number (by simp) (List.forall_mem_singleton.mpr hd)
  have one := digit (d := '1') 1 rfl (by decide +kernel)
  have two := digit (d := '2') 2 rfl (by decide +kernel)
  have x : Written .primary ['x'] (.var "x") := .letter (c := 'x') (by decide)
  have y : Written .primary ['y'] (.var "y") := .letter (c := 'y') (by decide)
  have difference := one.outer.outer.outer.outer.subtracted x.outer.outer.outer
  have sum := y.outer.outer.negated.outer.outer.added two.outer.outer.outer
  have hl : parse " 1-x" = .ok a := parse_eq_ok_iff.mpr difference.readFully
  have hr : parse "-y+2" = .ok b := parse_of_written sum
  obtain ⟨-, sub, -, mul, -, -, pow, -, applied⟩ := parse_composed hl hr
  refine ⟨⟨hl, hr⟩, ?_, ?_, ?_, ?_⟩
  · simpa using sub
  · simpa using mul
  · simpa using pow
  · simpa using applied ("ln", Expr.log) (by simp)

end Tutor.Expr
