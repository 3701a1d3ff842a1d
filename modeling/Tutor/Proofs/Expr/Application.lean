import Mathlib.Tactic.SplitIfs
import Tutor.Proofs.Expr.Consumption
import Tutor.Proofs.Expr.Names

/-!
The names of what is read. A function name is applied exactly where an argument starts behind it, so the
functions and the variables of an expression are those that its text spells, in the same order.
-/

set_option autoImplicit false
set_option relaxedAutoImplicit false

namespace Tutor.Expr

open Reader

variable {cs ds rest name : List Char} {c : Char} {e : Expr} {f : FunctionName}

namespace Reader

/-! ### What the readers take -/

section Taken

variable {α : Type} {read : (cs : List Char) → Option (α × Shorter cs)} {a : α}

private theorem spelledNames_of_spaced? (takes : Takes (·.isAlpha = false) read)
    (h : result (spaced? read) cs = some (a, rest)) : spelledNames cs = spelledNames rest := by
  obtain ⟨used, behind, -, symbols, join, rfl⟩ := exists_of_result_spaced? takes h
  rw [← spelledNames_skipBlanks cs, join, spelledNames_append symbols, spelledNames_skipBlanks]

private theorem isAlpha_of_mem_operators : ∀ c ∈ operators, c.isAlpha = false := by simp [operators]

theorem Joins.spelledNames (h : Joins cs rest) : spelledNames cs = spelledNames rest := by
  obtain ⟨signs, behind, -, operator, join, rfl⟩ := h
  rw [← spelledNames_skipBlanks cs, join,
    spelledNames_append fun c hc => isAlpha_of_mem_operators c (operator c hc), spelledNames_skipBlanks]

private theorem spelledNames_of_symbol? {d : Char} (symbol : c.isAlpha = false)
    (h : result (symbol? c) cs = some (d, rest)) : spelledNames cs = spelledNames rest := by
  apply spelledNames_of_spaced? ((takes_one? (· == c)).mono _) h
  intro b hb
  rwa [eq_of_beq hb]

private theorem isAlpha_of_numberChar (h : c.isDigit = true ∨ c = '.') : c.isAlpha = false := by
  rcases h with digit | rfl
  · rw [Bool.eq_false_iff]
    intro letter
    rw [isDigit_of_isAlpha letter] at digit
    cases digit
  · rfl

private theorem spelledNames_of_number? (h : result number? cs = some (e, rest)) :
    spelledNames cs = spelledNames rest := by
  obtain ⟨value, behind, rfl, bare, rfl⟩ := exists_of_number? h
  exact spelledNames_of_spaced? (takes_bareNumber?.mono fun _ => isAlpha_of_numberChar)
    (result_spaced?_eq_some_iff.mpr ⟨behind, bare, rfl⟩)

end Taken

/-! ### Arguments -/

private theorem exists_named_of_function? {node : Expr → Expr} (h : result function? cs = some (node, rest)) :
    ∃ name f behind, (name, f) ∈ named ∧ node = f.node ∧ skipBlanks cs = name ++ behind ∧
      rest = skipBlanks behind := by
  obtain ⟨behind, bare, rfl⟩ := result_spaced?_eq_some_iff.mp h
  obtain ⟨name, mem, -, join⟩ := exists_of_functionOf? bare
  rw [functions_eq_named] at mem
  obtain ⟨⟨own, f⟩, named, same⟩ := List.mem_map.mp mem
  cases same
  exact ⟨own, f, behind, named, rfl, join, rfl⟩

private theorem result_function?_of_named (mem : (name, f) ∈ named) (join : skipBlanks cs = name ++ rest) :
    result function? cs = some (f.node, skipBlanks rest) := by
  have bare : result (functionOf? functions) (name ++ rest) = some (f.node, rest) := by
    simp only [named, List.mem_cons, Prod.mk.injEq, List.not_mem_nil, or_false] at mem
    rcases mem with ⟨rfl, rfl⟩ | ⟨rfl, rfl⟩ | ⟨rfl, rfl⟩ | ⟨rfl, rfl⟩ | ⟨rfl, rfl⟩ | ⟨rfl, rfl⟩ | ⟨rfl, rfl⟩ <;>
      rfl
  rw [function?, result_spaced?, join, bare]
  rfl

private theorem result_bareNumber?_ne_none (digit : c.isDigit = true) (cs : List Char) :
    result bareNumber? (c :: cs) ≠ none := by
  have some_digit : (splitDigits (c :: cs)).1 ≠ [] := by simp [splitDigits, digit]
  rw [result_bareNumber?, if_neg some_digit]
  split_ifs <;> exact Option.some_ne_none _

private theorem exists_digit_of_bareNumber? {found : Rat × List Char} (h : result bareNumber? cs = some found) :
    ∃ c ds, cs = c :: ds ∧ c.isDigit = true := by
  cases cs with
  | nil => cases h
  | cons c ds =>
    refine ⟨c, ds, rfl, ?_⟩
    by_contra no_digit
    have none_here : (splitDigits (c :: ds)).1 = [] := by simp [splitDigits, no_digit]
    rw [result_bareNumber?, if_pos none_here] at h
    cases h

private theorem result_power?_ne_none (join : skipBlanks cs = c :: ds) (start : c.isAlphanum = true) :
    result power? cs ≠ none := by
  have primary : result primary? cs ≠ none := by
    rw [result_primary?, Ne, Option.or_eq_none_iff, Option.or_eq_none_iff, Option.or_eq_none_iff]
    rintro ⟨-, -, no_number, no_letter⟩
    rw [result_number?, Option.map_eq_none_iff, result_spaced?, join, Option.map_eq_none_iff] at no_number
    rw [result_letter?, Option.map_eq_none_iff, result_spaced?, join, Option.map_eq_none_iff] at no_letter
    rcases Bool.or_eq_true_iff.mp start with letter | digit
    · rw [result_one?_eq_some_iff.mpr ⟨rfl, letter⟩] at no_letter
      cases no_letter
    · exact result_bareNumber?_ne_none digit ds no_number
  rwa [result_power?, Ne, Option.map_eq_none_iff]

private theorem result_application?_ne_none (works : Consumed cs []) (h : applied? (skipBlanks cs) = some (name, f)) :
    result application? cs ≠ none := by
  obtain ⟨mem, rest, join, argument⟩ := applied?_eq_some_iff.mp h
  obtain ⟨c, start, operand⟩ := Option.any_eq_true _ _ |>.mp argument
  obtain ⟨ds, text⟩ := List.head?_eq_some_iff.mp start
  rw [result_application?, result_function?_of_named mem join.symm, Option.bind_some, Ne,
    Option.map_eq_none_iff, Option.or_eq_none_iff]
  rintro ⟨no_bracket, no_power⟩
  rcases Bool.or_eq_true_iff.mp operand with alphanum | bracket
  · exact result_power?_ne_none (by rw [skipBlanks_idem, text]) alphanum no_power
  · have whole := works.behind (.skipBlanks cs)
    rw [← join] at whole
    have later := whole.of_append.behind (.skipBlanks rest)
    rw [text] at no_bracket later
    exact later.works.opens (eq_of_beq bracket) no_bracket

private theorem startsArgument_of_skipBlanks (join : skipBlanks cs = c :: ds) (start : startsOperand c = true) :
    startsArgument cs = true := by
  rw [startsArgument, join]
  exact start

private theorem Parsed.startsArgument_eq_true {p : Phrase} (h : Parsed p cs e rest)
    (argument : p = .primary ∨ p = .power) : startsArgument cs = true := by
  induction h with
  | bracketed _ opening =>
    obtain ⟨rfl, behind, join, -⟩ := result_symbol?_eq_some_iff.mp opening
    exact startsArgument_of_skipBlanks join (by decide)
  | applied found =>
    obtain ⟨name, f, behind, mem, -, join, -⟩ := exists_named_of_function? found
    obtain ⟨long, letters⟩ := letters_of_mem_named _ mem
    cases name with
    | nil => simp at long
    | cons c name =>
      exact startsArgument_of_skipBlanks join (startsOperand_of_isAlpha (letters c List.mem_cons_self))
  | number found =>
    obtain ⟨value, behind, rfl, bare, rfl⟩ := exists_of_number? found
    obtain ⟨c, ds, join, digit⟩ := exists_digit_of_bareNumber? bare
    exact startsArgument_of_skipBlanks join (startsOperand_of_isDigit digit)
  | letter _ found =>
    obtain ⟨c, ds, join, letter, -⟩ := exists_of_letter? found
    exact startsArgument_of_skipBlanks join (startsOperand_of_isAlpha letter)
  | raised _ _ _ base => exact base (.inl rfl)
  | negated | plus | factor | beside | term => simp at argument
  | @outer p _ _ _ _ ih =>
    cases p with
    | primary => exact ih (.inl rfl)
    | _ => simp [Phrase.outer] at argument

/-! ### The names of what is read -/

/-- The names of a text are those of an expression, up to powers of one half that it spells as such. -/
structure Spells (written : List Name) (e : Expr) : Prop where
  sublist : written.Sublist e.names
  others : written.filter (· ≠ .function .sqrt) = e.names.filter (· ≠ .function .sqrt)

namespace Spells

variable {written written' : List Name} {a b : Expr} {node : Expr → Expr → Expr}

theorem append (keeps : (node a b).names = a.names ++ b.names) (ha : Spells written a)
    (hb : Spells written' b) : Spells (written ++ written') (node a b) where
  sublist := by
    rw [keeps]
    exact ha.sublist.append hb.sublist
  others := by rw [keeps, List.filter_append, List.filter_append, ha.others, hb.others]

theorem pow (ha : Spells written a) (hb : Spells written' b) : Spells (written ++ written') (.pow a b) := by
  by_cases half : b = .const (1 / 2)
  · rw [half] at hb
    obtain rfl := List.sublist_nil.mp hb.sublist
    have root : (Expr.pow a b).names = .function .sqrt :: a.names := if_pos half
    rw [List.append_nil]
    constructor
    · rw [root]
      exact ha.sublist.cons _
    · rw [root, ha.others, List.filter_cons_of_neg (by simp)]
  · exact append (if_neg half) ha hb

theorem applied (f : FunctionName) (h : Spells written e) : Spells (.function f :: written) (f.node e) where
  sublist := by
    rw [names_node]
    exact h.sublist.cons_cons _
  others := by rw [names_node, List.filter_cons, List.filter_cons, h.others]

end Spells

private theorem names_of_productOperator? {node : Expr → Expr → Expr}
    (h : result productOperator? cs = some (node, rest)) (a b : Expr) :
    (node a b).names = a.names ++ b.names := by
  obtain rfl | rfl := node_of_productOperator? h <;> rfl

private theorem names_of_sumOperator? {node : Expr → Expr → Expr}
    (h : result sumOperator? cs = some (node, rest)) (a b : Expr) :
    (node a b).names = a.names ++ b.names := by
  obtain ⟨c, behind, ⟨-, rfl⟩ | ⟨-, rfl⟩, -⟩ := result_sumOperator?_eq_some_iff.mp h <;> rfl

private theorem exists_names_append {behind operand : List Char} {w : Expr} {a b : Expr}
    (first : ∃ written, spelledNames cs = written ++ spelledNames behind ∧ Spells written a)
    (between : spelledNames behind = spelledNames operand)
    (second : ∃ written, spelledNames operand = written ++ spelledNames rest ∧ Spells written b)
    (both : ∀ {written written'}, Spells written a → Spells written' b → Spells (written ++ written') w) :
    ∃ written, spelledNames cs = written ++ spelledNames rest ∧ Spells written w := by
  obtain ⟨written, split, ha⟩ := first
  obtain ⟨written', split', hb⟩ := second
  exact ⟨written ++ written', by rw [split, between, split', List.append_assoc], both ha hb⟩

/-- What is taken from a text that works to its end spells the names of what is read. -/
private theorem Parsed.exists_names {p : Phrase} (h : Parsed p cs e rest) (works : Consumed cs []) :
    ∃ written, spelledNames cs = written ++ spelledNames rest ∧ Spells written e := by
  induction h with
  | bracketed _ opening _ closing ih =>
    obtain ⟨rfl, behind, join, rfl⟩ := result_symbol?_eq_some_iff.mp opening
    have opened := spelledNames_of_symbol? (by decide) opening
    have whole := works.behind (.skipBlanks _)
    rw [join] at whole
    obtain ⟨written, split, spells⟩ := ih (whole.tail.behind (.skipBlanks behind))
    obtain ⟨rfl, -⟩ := result_symbol?_eq_some_iff.mp closing
    exact ⟨written, by rw [opened, split, spelledNames_of_symbol? (by decide) closing], spells⟩
  | @applied cs argument _ _ _ found h ih =>
    obtain ⟨written, split, spells⟩ := ih (works.behind (leaves_of_function? found).consumed)
    obtain ⟨name, f, behind, mem, rfl, join, rfl⟩ := exists_named_of_function? found
    have argument : startsArgument behind = true := by
      have start := h.startsArgument_eq_true (.inr rfl)
      rwa [startsArgument, skipBlanks_idem] at start
    refine ⟨.function f :: written, ?_, spells.applied f⟩
    rw [← spelledNames_skipBlanks cs, join, spelledNames_applied mem argument,
      ← spelledNames_skipBlanks behind, split, List.cons_append]
  | number found =>
    obtain ⟨value, behind, rfl, -⟩ := exists_of_number? found
    exact ⟨[], spelledNames_of_number? found, .refl _, rfl⟩
  | @letter cs _ _ unapplied found =>
    obtain ⟨c, ds, join, letter, rfl, rfl⟩ := exists_of_letter? found
    have alone : applied? (c :: ds) = none := by
      rw [Option.eq_none_iff_forall_ne_some]
      rintro ⟨name, f⟩ named
      rw [← join] at named
      exact result_application?_ne_none works named unapplied
    refine ⟨[.var (String.singleton c)], ?_, .refl _, rfl⟩
    rw [← spelledNames_skipBlanks cs, join, spelledNames_letter letter alone, spelledNames_skipBlanks]
    rfl
  | raised base sign _ ih ih' =>
    have joins := joins_of_powerOperator? sign
    have left := works.behind base.leaves.consumed
    exact exists_names_append (ih works) joins.spelledNames (ih' (joins.operand left).2) .pow
  | negated sign _ ih =>
    have joins := joins_of_symbol? (by decide) sign
    obtain ⟨written, split, spells⟩ := ih (joins.operand works).2
    exact ⟨written, by rw [joins.spelledNames, split], spells.sublist, spells.others⟩
  | plus sign _ ih =>
    have joins := joins_of_symbol? (by decide) sign
    obtain ⟨written, split, spells⟩ := ih (joins.operand works).2
    exact ⟨written, by rw [joins.spelledNames, split], spells⟩
  | factor first sign _ ih ih' =>
    have joins := joins_of_productOperator? sign
    have left := works.behind first.leaves.consumed
    exact exists_names_append (ih works) joins.spelledNames (ih' (joins.operand left).2)
      (.append (names_of_productOperator? sign _ _))
  | beside first _ ih ih' =>
    exact exists_names_append (ih works) rfl (ih' (works.behind first.leaves.consumed)) (.append rfl)
  | term first sign _ ih ih' =>
    have joins := joins_of_sumOperator? sign
    have left := works.behind first.leaves.consumed
    exact exists_names_append (ih works) joins.spelledNames (ih' (joins.operand left).2)
      (.append (names_of_sumOperator? sign _ _))
  | outer _ ih => exact ih works

/-! ### Names alone -/

section Alone

variable {α : Type} {read : (cs : List Char) → Option (α × Shorter cs)} {s : List Char}

private theorem spaced?_eq_none_of_letters (takes : Takes (·.isAlpha = false) read)
    (letters : ∀ c ∈ cs, c.isAlpha = true) : spaced? read cs = none := by
  rw [← result_eq_none_iff]
  cases found : result (spaced? read) cs with
  | none => rfl
  | some taken =>
    obtain ⟨used, behind, nonempty, symbols, join, -⟩ := exists_of_result_spaced? takes found
    obtain ⟨c, used, rfl⟩ := List.exists_cons_of_ne_nil nonempty
    have mem : c ∈ skipBlanks cs := by simp [join]
    have letter := letters c ((List.dropWhile_sublist _).mem mem)
    rw [symbols c List.mem_cons_self] at letter
    cases letter

private theorem symbol?_eq_none_of_letters (symbol : c.isAlpha = false) (letters : ∀ c ∈ cs, c.isAlpha = true) :
    symbol? c cs = none := by
  apply spaced?_eq_none_of_letters ((takes_one? (· == c)).mono _) letters
  intro b hb
  rwa [eq_of_beq hb]

private theorem skipBlanks_of_letters (letters : ∀ c ∈ cs, c.isAlpha = true) : skipBlanks cs = cs := by
  cases cs with
  | nil => rfl
  | cons c cs =>
    have operand := startsOperand_of_isAlpha (letters c List.mem_cons_self)
    exact skipBlanks_cons (isBlank_of_startsOperand operand) cs

private theorem result_bracketed?_of_letters (letters : ∀ c ∈ cs, c.isAlpha = true) :
    result bracketed? cs = none := by
  rw [result_bracketed?, result_eq_none_iff.mpr (symbol?_eq_none_of_letters (by decide) letters)]
  rfl

private theorem result_power?_nil : result power? [] = none :=
  result_eq_none_iff.mpr (power?_eq_none (primary?_eq_none (by simp) rfl))

private theorem result_application?_of_suffix (mem : (name, f) ∈ named) (part : s <:+ name) :
    result application? s = none := by
  have letters : ∀ c ∈ s, c.isAlpha = true := fun c hc => (letters_of_mem_named _ mem).2 c (part.subset hc)
  rw [result_application?]
  cases found : result function? s with
  | none => rfl
  | some applied =>
    obtain ⟨other, g, behind, other_mem, -, join, rest⟩ := exists_named_of_function? found
    rw [skipBlanks_of_letters letters] at join
    have start : other <+: s := ⟨behind, join.symm⟩
    have whole := eq_of_prefix_of_suffix _ other_mem _ mem _ ((List.mem_tails _ _).mpr part) start
    obtain rfl : behind = [] := List.append_right_eq_self.mp (join.symm.trans whole)
    rw [Option.bind_some, rest]
    exact Option.map_eq_none_iff.mpr
      (Option.or_eq_none_iff.mpr ⟨result_bracketed?_of_letters (List.forall_mem_nil _), result_power?_nil⟩)

private theorem result_power?_of_suffix (mem : (name, f) ∈ named) (part : c :: s <:+ name) :
    result power? (c :: s) = some (.var (String.singleton c), s) := by
  have letters : ∀ d ∈ c :: s, d.isAlpha = true := fun d hd =>
    (letters_of_mem_named _ mem).2 d (part.subset hd)
  obtain ⟨letter, others⟩ := List.forall_mem_cons.mp letters
  have no_number : result number? (c :: s) = none := by
    rw [result_number?, result_eq_none_iff.mpr (spaced?_eq_none_of_letters (takes_bareNumber?.mono _) letters)]
    · rfl
    · exact fun d => isAlpha_of_numberChar
  have own : result letter? (c :: s) = some (.var (String.singleton c), s) :=
    reads_iff.mp (reads_letter letter (skipBlanks_of_letters others))
  have no_power : powerOperator? s = none :=
    spaced?_eq_none_of_letters (takes_barePowerOperator?.mono isAlpha_of_mem_operators) others
  rw [result_power?, result_primary?, result_bracketed?_of_letters letters,
    result_application?_of_suffix mem part, no_number, own]
  simp only [Option.none_or, Option.map_some, joined_eq_none no_power]
  rfl

def timesLetters (e : Expr) (s : List Char) : Expr :=
  s.foldl (fun e c => .mul e (.var (String.singleton c))) e

private theorem names_timesLetters (e : Expr) (s : List Char) :
    (timesLetters e s).names = e.names ++ s.map fun c => .var (String.singleton c) := by
  induction s generalizing e with
  | nil => exact (List.append_nil _).symm
  | cons c s ih =>
    have names : (timesLetters (.mul e (.var (String.singleton c))) s).names = _ := ih _
    rw [timesLetters, List.foldl_cons]
    exact names.trans (by simp [Expr.names])

private theorem productFrom_of_suffix (mem : (name, f) ∈ named) (part : s <:+ name) (e : Expr) :
    productFrom e s = (timesLetters e s, []) := by
  induction s generalizing e with
  | nil =>
    have no_operator : productOperator? [] = none := rfl
    rw [productFrom_eq, result_factor?, joined_eq_none no_operator, result_power?_nil]
    rfl
  | cons c s ih =>
    have letters : ∀ d ∈ c :: s, d.isAlpha = true := fun d hd =>
      (letters_of_mem_named _ mem).2 d (part.subset hd)
    have no_operator : productOperator? (c :: s) = none :=
      spaced?_eq_none_of_letters (takes_bareProductOperator?.mono isAlpha_of_mem_operators) letters
    rw [productFrom_eq, result_factor?, joined_eq_none no_operator, result_power?_of_suffix mem part]
    exact ih ((List.suffix_cons c s).trans part) _

private theorem result_sum?_of_named (mem : (c :: s, f) ∈ named) :
    result sum? (c :: s) = some (timesLetters (.var (String.singleton c)) s, []) := by
  have letters := (letters_of_mem_named _ mem).2
  have no_sign {d : Char} (symbol : d.isAlpha = false) : symbol? d (c :: s) = none :=
    symbol?_eq_none_of_letters symbol letters
  have unary : result unary? (c :: s) = some (.var (String.singleton c), s) := by
    rw [result_unary?, joined_eq_none (no_sign (by decide)), joined_eq_none (no_sign (by decide)),
      Option.none_or, Option.none_or, result_power?_of_suffix mem (List.suffix_refl _)]
  have product : result product? (c :: s) = some (timesLetters (.var (String.singleton c)) s, []) := by
    rw [result_product?, unary]
    exact congrArg some (productFrom_of_suffix mem (List.suffix_cons c s) _)
  have no_term : sumOperator? [] = none := rfl
  rw [result_sum?, product, Option.map_some, sumFrom_eq, joined_eq_none no_term]
  rfl

end Alone

end Reader

private theorem spells_of_parse {text : String} (h : parse text = .ok e) : Spells (spelledNames text.toList) e := by
  obtain ⟨rest, read, blank⟩ := exists_of_parse h
  have parsed := (readsParsed _).sum read
  obtain rfl : rest = [] := parsed.leaves.trimmed.symm.trans blank
  obtain ⟨written, split, spells⟩ := parsed.exists_names parsed.leaves.consumed
  have whole : spelledNames text.toList = written := by
    rw [← spelledNames_skipBlanks, split]
    exact List.append_nil written
  rwa [whole]

/-- The functions and variables of an expression are the names that its text spells, in the same order; only a
power of one half may be a square root that the text does not name. A word that is the name of a function is
spelled as that function if an argument starts behind it, and as its letters if not. So there are at least as
many functions in the expression as words that are names with an argument behind them. -/
theorem names_of_parse {text : String} (h : parse text = .ok e) :
    Spells (spelledNames text.toList) e ∧
    (∀ before name rest f, text.toList = before ++ (name ++ rest) → (name, f) ∈ named →
      before.getLast?.any Char.isAlpha = false → rest.head?.any Char.isAlpha = false →
      ∃ front, spelledNames text.toList = front ++
        ((if startsArgument rest then [.function f]
          else name.map fun c => .var (String.singleton c)) ++ spelledNames rest)) ∧
    appliedRuns false text.toList ≤ e.names.countP Name.isFunction := by
  have spells := spells_of_parse h
  refine ⟨spells, ?_, ?_⟩
  · intro before name rest f whole mem starts ends
    obtain ⟨front, split⟩ := exists_namesFrom_append starts (Nat.zero_le _) (name ++ rest)
    refine ⟨front, ?_⟩
    rw [spelledNames, whole, split]
    split_ifs with argument
    · rw [spelledNames_applied mem argument]
      rfl
    · rw [spelledNames_unapplied mem ends (Bool.eq_false_iff.mpr argument)]
  · exact (appliedRuns_le_countP (Nat.zero_le _) (by simp)).trans spells.sublist.countP_le

private theorem exists_parse_of_named {text : String} (mem : (text.toList, f) ∈ named) :
    ∃ e, parse text = .ok e ∧ e.names = text.toList.map fun c => .var (String.singleton c) := by
  obtain ⟨long, letters⟩ := letters_of_mem_named _ mem
  have trimmed := skipBlanks_of_letters letters
  cases join : text.toList with
  | nil => simp [join] at long
  | cons c s =>
    rw [join] at mem trimmed
    obtain ⟨shorter, found⟩ := reads_iff.mpr (result_sum?_of_named mem)
    refine ⟨timesLetters (.var (String.singleton c)) s, ?_, names_timesLetters _ s⟩
    rw [parse, join, trimmed]
    simp only [found]
    rfl

/-- A name with an argument in brackets, and the same name alone. -/
theorem names_of_parse_sin :
    (parse "(sin(x))" = .ok (.sin (.var "x")) ∧
      (Expr.sin (.var "x")).names = [.function .sin, .var "x"] ∧
      spelledNames "(sin(x))".toList = [.function .sin, .var "x"] ∧
      appliedRuns false "(sin(x))".toList ≤ 1) ∧
    ∃ e, parse "sin" = .ok e ∧ e.names = [.var "s", .var "i", .var "n"] ∧
      ∃ front, spelledNames "sin".toList = front ++ [.var "s", .var "i", .var "n"] := by
  have x : Written .primary ['x'] (.var "x") := .letter (by decide)
  have applied : Written .primary ("sin".toList ++ '(' :: (['x'] ++ [')'])) (.sin (.var "x")) :=
    .applied (by simp [functions]) x.outer.outer.outer.outer
  have read : parse "(sin(x))" = .ok (.sin (.var "x")) :=
    parse_of_written (Written.bracketed applied.outer.outer.outer.outer).outer.outer.outer.outer
  obtain ⟨-, -, counted⟩ := names_of_parse read
  obtain ⟨e, alone, names⟩ := exists_parse_of_named (by decide : ("sin".toList, .sin) ∈ named)
  obtain ⟨-, spelled, -⟩ := names_of_parse alone
  exact ⟨⟨read, by decide, by decide, counted⟩, e, alone, names,
    spelled [] "sin".toList [] .sin rfl (by decide) rfl rfl⟩

/-- The name of a function alone is read as variables, without any function. -/
theorem function_name_split :
    ("sin".toList, .sin) ∈ named ∧
      ∃ e, parse "sin" = .ok e ∧ e.names = [.var "s", .var "i", .var "n"] ∧
        e.names.countP Name.isFunction = 0 := by
  have mem : ("sin".toList, .sin) ∈ named := by decide
  obtain ⟨e, alone, names⟩ := exists_parse_of_named mem
  exact ⟨mem, e, alone, names, by rw [names]; rfl⟩

end Tutor.Expr
