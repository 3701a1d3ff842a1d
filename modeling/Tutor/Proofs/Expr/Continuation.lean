import Tutor.Proofs.Expr.Consumption

/-!
A text that is read to its end is read in the same way in front of whatever ends a product. Where a reader
gave up inside the text, at an operator without an operand or at a bracket that no bracket closes, a tail
could let it go on; but then something of the text was left over.
-/

set_option autoImplicit false
set_option relaxedAutoImplicit false

namespace Tutor.Expr

namespace Reader

def withTail {α : Type} (tail : List Char) (found : α × List Char) : α × List Char :=
  (found.1, found.2 ++ tail)

/-- With a tail behind the text a reader finds the same, or nothing as before, and leaves the tail too. -/
def Extends {α : Type} (tail : List Char) (read : (cs : List Char) → Option (α × Shorter cs))
    (cs : List Char) : Prop :=
  result read (cs ++ tail) = (result read cs).map (withTail tail)

variable {α β : Type} {read : (cs : List Char) → Option (α × Shorter cs)} {cs rest tail : List Char}
  {a : α} {e : Expr} {c : Char}

/-! The small readers. -/

namespace Extends

theorem found (h : Extends tail read cs) (found : result read cs = some (a, rest)) :
    result read (cs ++ tail) = some (a, rest ++ tail) := by
  rw [h, found]
  rfl

private theorem not_found (h : Extends tail read cs) (none_here : result read cs = none) :
    result read (cs ++ tail) = none := by
  rw [h, none_here]
  rfl

theorem spaced (trimmed : skipBlanks tail = tail) (h : Extends tail read (skipBlanks cs)) :
    Extends tail (spaced? read) cs := by
  rw [Extends, result_spaced?, result_spaced?, skipBlanks_append trimmed, h, Option.map_map, Option.map_map]
  congr 1
  funext found
  exact congrArg (Prod.mk found.1) (skipBlanks_append trimmed found.2)

theorem one? {test : Char → Bool} (h : cs ≠ [] ∨ ∀ c ∈ tail.head?, test c = false) :
    Extends tail (one? test) cs := by
  rcases cs with _ | ⟨c, cs⟩
  · have stop := h.resolve_left (fun nonempty => nonempty rfl)
    rw [Extends, List.nil_append, result_eq_none_iff.mpr (one?_eq_none stop)]
    rfl
  · by_cases passed : test c = true <;> simp [Extends, result, Reader.one?, passed, withTail]

private theorem head?_append_eq_star_iff (stop : tail.head? ≠ some '*') :
    (cs ++ tail).head? = some '*' ↔ cs.head? = some '*' := by
  rcases cs with _ | ⟨c, cs⟩
  · simp [stop]
  · simp

theorem bareProductOperator? (stop : ∀ c ∈ tail.head?, c ≠ '*' ∧ c ≠ '/') (cs : List Char) :
    Extends tail bareProductOperator? cs := by
  rcases cs with _ | ⟨c, cs⟩
  · rcases tail with _ | ⟨d, tail⟩
    · rfl
    · obtain ⟨star, slash⟩ := stop d rfl
      rw [Extends, List.nil_append, result_bareProductOperator?_cons, if_neg star, if_neg slash]
      rfl
  · have other : tail.head? ≠ some '*' := fun star => (stop '*' star).1 rfl
    rw [Extends, List.cons_append, result_bareProductOperator?_cons, result_bareProductOperator?_cons]
    simp only [head?_append_eq_star_iff other]
    split_ifs <;> rfl

theorem barePowerOperator? (stop : ∀ c ∈ tail.head?, c ≠ '*' ∧ c ≠ '^') (cs : List Char) :
    Extends tail barePowerOperator? cs := by
  rcases cs with _ | ⟨c, cs⟩
  · rcases tail with _ | ⟨d, tail⟩
    · rfl
    · obtain ⟨star, caret⟩ := stop d rfl
      rw [Extends, List.nil_append, result_barePowerOperator?_cons, if_neg fun both => star both.1,
        if_neg caret]
      rfl
  · have other : tail.head? ≠ some '*' := fun star => (stop '*' star).1 rfl
    rw [Extends, List.cons_append, result_barePowerOperator?_cons, result_barePowerOperator?_cons]
    simp only [head?_append_eq_star_iff other]
    split_ifs with both
    · obtain ⟨text, rfl⟩ := List.head?_eq_some_iff.mp both.2
      rfl
    all_goals rfl

private theorem isPrefixOf_append {name : List Char} (letters : ∀ c ∈ name, c.isAlpha = true)
    (stop : ∀ c ∈ tail.head?, c.isAlpha = false) (cs : List Char) :
    name.isPrefixOf (cs ++ tail) = name.isPrefixOf cs := by
  induction name generalizing cs with
  | nil => rfl
  | cons c name ih =>
    rcases cs with _ | ⟨d, cs⟩
    · rcases tail with _ | ⟨d, tail⟩
      · rfl
      · have other : c ≠ d := by
          rintro rfl
          exact absurd (letters c List.mem_cons_self) (by simp [stop c rfl])
        simp [List.isPrefixOf, other]
    · simp only [List.cons_append, List.isPrefixOf, ih fun d hd => letters d (List.mem_cons_of_mem _ hd)]

theorem functionOf? {table : List (List Char × (Expr → Expr))}
    (names : ∀ entry ∈ table, ∀ c ∈ entry.1, c.isAlpha = true) (stop : ∀ c ∈ tail.head?, c.isAlpha = false)
    (cs : List Char) : Extends tail (functionOf? table) cs := by
  induction table with
  | nil => rfl
  | cons entry others ih =>
    obtain ⟨name, node⟩ := entry
    have later := ih fun entry mem => names entry (List.mem_cons_of_mem _ mem)
    have same := isPrefixOf_append (names _ List.mem_cons_self) stop cs
    unfold Extends result at later ⊢
    unfold Reader.functionOf? word?
    by_cases nonempty : name ≠ []
    · by_cases start : name.isPrefixOf cs = true
      · have long : name.length ≤ cs.length := (List.isPrefixOf_iff_prefix.mp start).length_le
        simp [nonempty, same, start, List.drop_append_of_le_length long, withTail]
      · simpa [nonempty, same, start] using later
    · simpa [nonempty] using later

private theorem splitDigits_append_of_stop (stop : ∀ c ∈ tail.head?, c.isDigit = false) (cs : List Char) :
    splitDigits (cs ++ tail) = ((splitDigits cs).1, (splitDigits cs).2 ++ tail) := by
  induction cs with
  | nil =>
    have nothing : splitDigits ([] ++ tail) = ([], tail) := splitDigits_append (by simp) stop
    exact nothing
  | cons c cs ih =>
    by_cases digit : c.isDigit = true
    · simp only [splitDigits, Prod.mk.injEq, List.cons_append, List.takeWhile_cons_of_pos digit,
        List.dropWhile_cons_of_pos digit] at ih ⊢
      exact ⟨congrArg _ ih.1, ih.2⟩
    · simp [splitDigits, digit]

theorem bareNumber? (stop : ∀ c ∈ tail.head?, c.isDigit = false ∧ c ≠ '.') (cs : List Char) :
    Extends tail bareNumber? cs := by
  have split := splitDigits_append_of_stop fun c hc => (stop c hc).1
  rw [Extends, result_bareNumber?, result_bareNumber?, split]
  dsimp only
  by_cases whole : (splitDigits cs).1 = []
  · rw [if_pos whole, if_pos whole]
    rfl
  rw [if_neg whole, if_neg whole]
  rcases (splitDigits cs).2 with _ | ⟨c, behind⟩
  · have no_point : tail.head? ≠ some '.' := fun point => (stop '.' point).2 rfl
    rw [List.nil_append, if_neg fun both => no_point both.1, if_neg fun both => by cases both.1]
    rfl
  · rw [List.cons_append, List.head?_cons, List.tail_cons, List.head?_cons, List.tail_cons, split]
    by_cases fraction : some c = some '.' ∧ (splitDigits behind).1 ≠ []
    · rw [if_pos fraction, if_pos fraction]
      rfl
    · rw [if_neg fraction, if_neg fraction]
      rfl

section Spaced

variable (follow : Phrase.product.Follow tail) (cs)
include follow

theorem symbol? {c : Char} (h : skipBlanks cs ≠ [] ∨ c ∉ Phrase.product.stops) :
    Extends tail (symbol? c) cs := by
  apply spaced follow.skipBlanks (one? (h.imp_right fun other d hd => ?_))
  rw [beq_eq_false_iff_ne]
  rintro rfl
  exact other (follow.head _ hd)

theorem productOperator? : Extends tail productOperator? cs :=
  spaced follow.skipBlanks (bareProductOperator? (follow.forall_head (by simp [Phrase.stops])) _)

theorem powerOperator? : Extends tail powerOperator? cs :=
  spaced follow.skipBlanks (barePowerOperator? (follow.forall_head (by simp [Phrase.stops])) _)

theorem function? : Extends tail function? cs :=
  spaced follow.skipBlanks (functionOf? (fun entry mem => (letters_of_mem_functions entry mem).2)
    (follow.forall_head (by simp [Phrase.stops])) _)

theorem number? : Extends tail number? cs := by
  have bare : Extends tail (spaced? Reader.bareNumber?) cs :=
    spaced follow.skipBlanks (bareNumber? (follow.forall_head (by simp [Phrase.stops])) _)
  rw [Extends, result_number?, result_number?, bare, Option.map_map, Option.map_map]
  rfl

theorem letter? : Extends tail letter? cs := by
  have bare : Extends tail (spaced? (Reader.one? Char.isAlpha)) cs :=
    spaced follow.skipBlanks (one? (.inr (follow.forall_head (by simp [Phrase.stops]))))
  rw [Extends, result_letter?, result_letter?, bare, Option.map_map, Option.map_map]
  rfl

end Spaced

end Extends

/-! Readers that call each other. -/

private theorem bind_withTail {X : Option (α × List Char)} {k k' : α × List Char → Option (β × List Char)}
    (h : ∀ a rest, X = some (a, rest) → k' (a, rest ++ tail) = (k (a, rest)).map (withTail tail)) :
    (X.map (withTail tail)).bind k' = (X.bind k).map (withTail tail) := by
  cases X with
  | none => rfl
  | some found => exact h found.1 found.2 rfl

/-- In front of a tail the readers do the same. A sum may go on in the tail. -/
structure ReadsOn (tail cs : List Char) : Prop where
  sum (operand : skipBlanks cs ≠ []) :
    result sum? (cs ++ tail) = (result sum? cs).map fun found => sumFrom found.1 (found.2 ++ tail)
  sumFrom (e : Expr) : sumFrom e (cs ++ tail) = sumFrom (sumFrom e cs).1 ((sumFrom e cs).2 ++ tail)
  product (operand : skipBlanks cs ≠ []) : Extends tail product? cs
  productFrom (e : Expr) : productFrom e (cs ++ tail) = withTail tail (productFrom e cs)
  unary (operand : skipBlanks cs ≠ []) : Extends tail unary? cs
  power : Extends tail power? cs
  bracketed : Extends tail bracketed? cs

private theorem skipBlanks_ne_nil_of_symbol {c d : Char} (h : result (symbol? c) cs = some (d, rest)) :
    skipBlanks cs ≠ [] := by
  obtain ⟨-, behind, join, -⟩ := result_symbol?_eq_some_iff.mp h
  rw [join]
  exact List.cons_ne_nil _ _

private theorem sumFrom_of_closing {d : Char} (h : result (symbol? ')') cs = some (d, rest)) :
    sumFrom e cs = (e, cs) := by
  obtain ⟨-, behind, join, -⟩ := result_symbol?_eq_some_iff.mp h
  have no_sign : sumOperator? cs = none := by
    rw [← result_eq_none_iff, Option.eq_none_iff_forall_not_mem]
    rintro ⟨node, operand⟩ sign
    obtain ⟨c, text, signs, join', -⟩ := result_sumOperator?_eq_some_iff.mp sign
    rw [join] at join'
    cases join'
    rcases signs with ⟨same, -⟩ | ⟨same, -⟩ <;> cases same
  rw [sumFrom_eq, joined_eq_none no_sign]
  rfl

private theorem result_sumOperator?_append {node : Expr → Expr → Expr} (follow : Phrase.product.Follow tail)
    (h : result sumOperator? cs = some (node, rest)) :
    result sumOperator? (cs ++ tail) = some (node, rest ++ tail) := by
  obtain ⟨c, behind, sign, join, rfl⟩ := result_sumOperator?_eq_some_iff.mp h
  refine result_sumOperator?_eq_some_iff.mpr ⟨c, behind ++ tail, sign, ?_, ?_⟩
  · rw [skipBlanks_append follow.skipBlanks, join, List.cons_append]
  · rw [skipBlanks_append follow.skipBlanks]

private theorem joined_append {β γ : Type} {operator : (cs : List Char) → Option (β × Shorter cs)}
    {operand : (cs : List Char) → Option (Expr × Shorter cs)} {node : β → Expr → γ}
    (sign_append : Extends tail operator cs)
    (joins : ∀ {b between}, result operator cs = some (b, between) → Joins cs between)
    (works : Consumed cs [])
    (inner : ∀ {between}, between.length < cs.length → Consumed between [] → skipBlanks between ≠ [] →
      Extends tail operand between) :
    joined operator operand node (cs ++ tail) = (joined operator operand node cs).map (withTail tail) := by
  rw [joined, sign_append]
  apply bind_withTail
  intro b between sign
  obtain ⟨operand_here, later⟩ := (joins sign).operand works
  rw [inner (length_lt_of_result sign) later operand_here, Option.map_map, Option.map_map]
  rfl

section Step

variable (follow : Phrase.product.Follow tail) (works : Consumed cs [])
  (ih : ∀ {ds}, ds.length < cs.length → Consumed ds [] → ReadsOn tail ds)
include follow works ih

private theorem extends_bracketed? : Extends tail bracketed? cs := by
  have outside := Extends.symbol? (c := '(') cs follow (.inr (by decide))
  cases opening : result (symbol? '(') cs with
  | none =>
    rw [Extends, result_bracketed?, result_bracketed?, outside.not_found opening, opening]
    rfl
  | some bracket =>
    obtain ⟨_, inside⟩ := bracket
    have shorter := length_lt_of_result opening
    obtain ⟨rfl, text, join, rfl⟩ := result_symbol?_eq_some_iff.mp opening
    have later := works.behind (.skipBlanks cs)
    rw [join] at later
    -- The bracket works, so it opens a bracketed sum.
    obtain ⟨found, read⟩ := Option.ne_none_iff_exists'.mp (later.works.opens rfl)
    rw [← join, result_bracketed?_skipBlanks] at read
    rw [Extends, read]
    rw [result_bracketed?] at read
    obtain ⟨_, opening', read⟩ := Option.bind_eq_some_iff.mp read
    rw [opening] at opening'
    cases opening'
    obtain ⟨⟨e, behind⟩, sum, read⟩ := Option.bind_eq_some_iff.mp read
    obtain ⟨⟨_, final⟩, closing, rfl⟩ := Option.map_eq_some_iff.mp read
    have inner := ih shorter (later.tail.behind (.skipBlanks text))
    have operand : skipBlanks (skipBlanks text) ≠ [] := by
      rw [skipBlanks_idem]
      exact ne_nil_of_result sum
    have bracket := Extends.symbol? (c := ')') behind follow (.inl (skipBlanks_ne_nil_of_symbol closing))
    have closed := bracket.found closing
    rw [result_bracketed?, outside.found opening, Option.bind_some, inner.sum operand, sum, Option.map_some,
      Option.bind_some, sumFrom_of_closing closed, closed]
    rfl

private theorem extends_application? : Extends tail application? cs := by
  rw [Extends, result_application?, result_application?, Extends.function? cs follow]
  apply bind_withTail
  intro node argument name
  have inner := ih (length_lt_of_result name) (works.behind (leaves_of_function? name).consumed)
  rw [inner.bracketed, inner.power, ← Option.map_or, Option.map_map, Option.map_map]
  rfl

private theorem extends_primary? : Extends tail primary? cs := by
  rw [Extends, result_primary?, result_primary?, extends_bracketed? follow works ih,
    extends_application? follow works ih, Extends.number? cs follow, Extends.letter? cs follow, Option.map_or,
    Option.map_or, Option.map_or]

private theorem extends_power? : Extends tail power? cs := by
  rw [Extends, result_power?, result_power?, extends_primary? follow works ih]
  cases read : result primary? cs with
  | none => rfl
  | some found =>
    obtain ⟨base, behind⟩ := found
    have shorter := length_lt_of_result read
    have left := (parsed_of_primary? (fun _ => readsParsed _) read).leaves.consumed
    have raised : joined powerOperator? unary? (fun _ exponent => Expr.pow base exponent) (behind ++ tail) = _ :=
      joined_append (Extends.powerOperator? behind follow) joins_of_powerOperator? (works.behind left)
        fun operand_shorter works operand => (ih (Nat.lt_trans operand_shorter shorter) works).unary operand
    rw [Option.map_some, Option.map_some, Option.map_some]
    dsimp only [withTail]
    rw [raised]
    exact congrArg some (Option.getD_map (withTail tail) (base, behind) _)

private theorem extends_unary? (operand : skipBlanks cs ≠ []) : Extends tail unary? cs := by
  have signed {c : Char} (sign : c ∈ operators) (node : Expr → Expr) :
      joined (symbol? c) unary? (fun _ e => node e) (cs ++ tail) = _ :=
    joined_append (Extends.symbol? cs follow (.inl operand)) (joins_of_symbol? sign) works
      fun shorter works operand => (ih shorter works).unary operand
  rw [Extends, result_unary?, result_unary?, signed (by decide), signed (by decide) fun e => e,
    extends_power? follow works ih, Option.map_or, Option.map_or]

private theorem extends_factor? : Extends tail factor? cs := by
  have operated : joined productOperator? unary? Prod.mk (cs ++ tail) = _ :=
    joined_append (Extends.productOperator? cs follow) joins_of_productOperator? works
      fun shorter works operand => (ih shorter works).unary operand
  rw [Extends, result_factor?, result_factor?, operated, extends_power? follow works ih, Option.map_or,
    Option.map_map, Option.map_map]
  rfl

private theorem productFrom_append (e : Expr) : productFrom e (cs ++ tail) = withTail tail (productFrom e cs) := by
  rw [productFrom_eq, productFrom_eq e cs, extends_factor? follow works ih]
  cases read : result factor? cs with
  | none => rfl
  | some found =>
    obtain ⟨⟨node, factor⟩, behind⟩ := found
    have left := (leaves_of_factor? read).consumed
    exact (ih (length_lt_of_result read) (works.behind left)).productFrom _

private theorem extends_product? (operand : skipBlanks cs ≠ []) : Extends tail product? cs := by
  rw [Extends, result_product?, result_product?, extends_unary? follow works ih operand]
  cases read : result unary? cs with
  | none => rfl
  | some found =>
    obtain ⟨first, behind⟩ := found
    have left := ((readsParsed cs).unary read).leaves.consumed
    exact congrArg some ((ih (length_lt_of_result read) (works.behind left)).productFrom first)

private theorem sumFrom_append (e : Expr) :
    sumFrom e (cs ++ tail) = sumFrom (sumFrom e cs).1 ((sumFrom e cs).2 ++ tail) := by
  cases read : joined sumOperator? product? (fun node term => node e term) cs with
  | none =>
    rw [sumFrom_eq e cs, read]
    rfl
  | some found =>
    obtain ⟨sum, behind⟩ := found
    obtain ⟨node, operand, term, sign, term_read, rfl⟩ := joined_eq_some_iff.mp read
    have left := ((joins_of_sumOperator? sign).leaves (ne_nil_of_result term_read)).trans
      ((readsParsed operand).product term_read).leaves
    obtain ⟨operand_here, later⟩ := (joins_of_sumOperator? sign).operand works
    have inner := (ih (length_lt_of_result sign) later).product operand_here
    have sign_append := result_sumOperator?_append follow sign
    have read_append : joined sumOperator? product? (fun node term => node e term) (cs ++ tail) =
        some (node e term, behind ++ tail) :=
      joined_eq_some_iff.mpr ⟨node, _, term, sign_append, inner.found term_read, rfl⟩
    rw [sumFrom_eq e cs, read, sumFrom_eq e (cs ++ tail), read_append]
    exact (ih (length_lt_of_joined read) (works.behind left.consumed)).sumFrom _

private theorem result_sum?_append (operand : skipBlanks cs ≠ []) :
    result sum? (cs ++ tail) = (result sum? cs).map fun found => sumFrom found.1 (found.2 ++ tail) := by
  rw [result_sum?, result_sum?, extends_product? follow works ih operand]
  cases read : result product? cs with
  | none => rfl
  | some found =>
    obtain ⟨first, behind⟩ := found
    have left := ((readsParsed cs).product read).leaves.consumed
    exact congrArg some ((ih (length_lt_of_result read) (works.behind left)).sumFrom first)

end Step

private theorem readsOn (follow : Phrase.product.Follow tail) (works : Consumed cs []) : ReadsOn tail cs := by
  induction hn : cs.length using Nat.strongRecOn generalizing cs with
  | ind n ih =>
    subst hn
    have shorter {ds : List Char} (h : ds.length < cs.length) (works : Consumed ds []) : ReadsOn tail ds :=
      ih _ h works rfl
    exact
      { sum := result_sum?_append follow works shorter
        sumFrom := sumFrom_append follow works shorter
        product := extends_product? follow works shorter
        productFrom := productFrom_append follow works shorter
        unary := extends_unary? follow works shorter
        power := extends_power? follow works shorter
        bracketed := extends_bracketed? follow works shorter }

end Reader

open Reader

private theorem result_sum?_of_parse {text : String} {e : Expr} (h : parse text = .ok e) :
    result sum? (skipBlanks text.toList) = some (e, []) := by
  obtain ⟨rest, read, blank⟩ := exists_of_parse h
  rwa [← ((readsParsed _).sum read).leaves.trimmed, blank] at read

theorem readFully_of_parse {text : String} {e : Expr} (h : parse text = .ok e) :
    ReadFully .sum (skipBlanks text.toList) e := by
  intro tail follow
  have read := result_sum?_of_parse h
  have works := ((readsParsed _).sum read).leaves.consumed
  have operand : skipBlanks (skipBlanks text.toList) ≠ [] := by
    rw [skipBlanks_idem]
    exact ne_nil_of_result read
  rw [reads_iff, (readsOn follow works).sum operand, read]
  rfl

end Tutor.Expr
