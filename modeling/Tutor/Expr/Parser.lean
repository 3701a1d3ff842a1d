import Tutor.Expr.Basic
import Tutor.Number.Literal

/-!
Reading expressions. Besides the usual infix grammar there are `**` for a power, decimals (kept
exact), function names applied with or without brackets, and products written side by side: `2x`,
`3(x+1)`, `xy`. Letters that start no function application are variables, one letter each.

    sum      = product { ("+" | "-") product }
    product  = unary { ("*" | "/") unary | power }
    unary    = "-" unary | "+" unary | power
    power    = primary [ ("**" | "^") unary ]
    primary  = "(" sum ")" | name ( "(" sum ")" | power ) | number | letter

Alternatives are tried in this order and the first that fits is kept. Every reader returns what is
left of the text together with a proof that it is shorter, which is why reading ends.
-/

set_option autoImplicit false
set_option relaxedAutoImplicit false

namespace Tutor.Expr

namespace Reader

open Number (decimalValue)

/-- What is left of a text after something was read from it. -/
abbrev Shorter (cs : List Char) := { rest : List Char // rest.length < cs.length }

def isBlank (c : Char) : Bool := c == ' ' || c == '\t' || c == '\n' || c == '\r'

def skipBlanks (cs : List Char) : List Char := cs.dropWhile isBlank

theorem length_skipBlanks_le (cs : List Char) : (skipBlanks cs).length ≤ cs.length :=
  (List.dropWhile_sublist _).length_le

def one? (p : Char → Bool) : (cs : List Char) → Option (Char × Shorter cs)
  | [] => none
  | c :: rest => if p c then some (c, ⟨rest, by simp⟩) else none

def word? (word : List Char) (cs : List Char) (nonempty : word ≠ []) : Option (Shorter cs) :=
  if h : word.isPrefixOf cs then
    some ⟨cs.drop word.length, by
      have := (List.isPrefixOf_iff_prefix.mp h).length_le
      have := List.length_pos_iff.mpr nonempty
      simp only [List.length_drop]
      omega⟩
  else none

def spaced? {α : Type} (read : (cs : List Char) → Option (α × Shorter cs)) (cs : List Char) :
    Option (α × Shorter cs) :=
  match read (skipBlanks cs) with
  | none => none
  | some (a, rest) =>
    some (a, ⟨skipBlanks rest.1, by
      have := rest.2
      have := length_skipBlanks_le rest.1
      have := length_skipBlanks_le cs
      omega⟩)

def symbol? (c : Char) : (cs : List Char) → Option (Char × Shorter cs) := spaced? (one? (· == c))

def sumOperator? : (cs : List Char) → Option ((Expr → Expr → Expr) × Shorter cs) :=
  spaced? fun cs =>
    match one? (fun c => c == '+' || c == '-') cs with
    | none => none
    | some (c, rest) => some (if c == '+' then Expr.add else Expr.sub, rest)

/-- A star that no second star follows, or a slash. -/
def bareProductOperator? : (cs : List Char) → Option ((Expr → Expr → Expr) × Shorter cs)
  | '*' :: '*' :: _ => none
  | '*' :: rest => some (Expr.mul, ⟨rest, by simp⟩)
  | '/' :: rest => some (Expr.div, ⟨rest, by simp⟩)
  | _ => none

def productOperator? : (cs : List Char) → Option ((Expr → Expr → Expr) × Shorter cs) :=
  spaced? bareProductOperator?

def barePowerOperator? : (cs : List Char) → Option (Unit × Shorter cs)
  | '*' :: '*' :: rest => some ((), ⟨rest, by simp only [List.length_cons]; omega⟩)
  | '^' :: rest => some ((), ⟨rest, by simp⟩)
  | _ => none

def powerOperator? : (cs : List Char) → Option (Unit × Shorter cs) := spaced? barePowerOperator?

/-- The function names and the nodes they build. No name is the start of another one. -/
def functions : List (List Char × (Expr → Expr)) :=
  [(['s', 'q', 'r', 't'], Expr.sqrt), (['s', 'i', 'n'], Expr.sin), (['c', 'o', 's'], Expr.cos),
   (['t', 'a', 'n'], Expr.tan), (['e', 'x', 'p'], Expr.exp), (['l', 'o', 'g'], Expr.log),
   (['l', 'n'], Expr.log)]

def functionOf? : List (List Char × (Expr → Expr)) → (cs : List Char) →
    Option ((Expr → Expr) × Shorter cs)
  | [], _ => none
  | (name, node) :: others, cs =>
    if nonempty : name ≠ [] then
      match word? name cs nonempty with
      | some rest => some (node, rest)
      | none => functionOf? others cs
    else functionOf? others cs

def function? : (cs : List Char) → Option ((Expr → Expr) × Shorter cs) :=
  spaced? (functionOf? functions)

def splitDigits (cs : List Char) : List Char × List Char :=
  (cs.takeWhile Char.isDigit, cs.dropWhile Char.isDigit)

private theorem splitDigits_length_lt {cs : List Char} (h : (splitDigits cs).1 ≠ []) :
    (splitDigits cs).2.length < cs.length := by
  have joined := congrArg List.length (List.takeWhile_append_dropWhile (p := Char.isDigit) (l := cs))
  have := List.length_pos_iff.mpr h
  simp only [splitDigits] at *
  simp only [List.length_append] at joined
  omega

private theorem splitDigits_length_le (cs : List Char) : (splitDigits cs).2.length ≤ cs.length :=
  (List.dropWhile_sublist _).length_le

/-- Digits, then perhaps a point and more digits; a point without digits behind it is left. -/
def bareNumber? (cs : List Char) : Option (Rat × Shorter cs) :=
  if whole : (splitDigits cs).1 ≠ [] then
    match after : (splitDigits cs).2 with
    | '.' :: rest =>
      if (splitDigits rest).1 ≠ [] then
        some (decimalValue (splitDigits cs).1 (splitDigits rest).1, ⟨(splitDigits rest).2, by
          have := splitDigits_length_lt whole
          have := splitDigits_length_le rest
          rw [after] at *
          simp only [List.length_cons] at *
          omega⟩)
      else
        some (decimalValue (splitDigits cs).1 [], ⟨'.' :: rest, after ▸ splitDigits_length_lt whole⟩)
    | rest => some (decimalValue (splitDigits cs).1 [], ⟨rest, after ▸ splitDigits_length_lt whole⟩)
  else none

def number? (cs : List Char) : Option (Expr × Shorter cs) :=
  (spaced? bareNumber? cs).map fun (q, rest) => (.const q, rest)

def letter? (cs : List Char) : Option (Expr × Shorter cs) :=
  (spaced? (one? Char.isAlpha) cs).map fun (c, rest) => (.var (String.singleton c), rest)

mutual

def sum? (cs : List Char) : Option (Expr × Shorter cs) :=
  match product? cs with
  | none => none
  | some (first, rest) =>
    let (e, final) := moreTerms first rest.1
    some (e, ⟨final.1, Nat.lt_of_le_of_lt final.2 rest.2⟩)
termination_by (cs.length, 6)

def moreTerms (e : Expr) (cs : List Char) : Expr × { rest : List Char // rest.length ≤ cs.length } :=
  match sumOperator? cs with
  | none => (e, ⟨cs, Nat.le_refl _⟩)
  | some (node, operand) =>
    match product? operand.1 with
    | none => (e, ⟨cs, Nat.le_refl _⟩)
    | some (term, rest) =>
      have shorter := Nat.lt_trans rest.2 operand.2
      let (e', final) := moreTerms (node e term) rest.1
      (e', ⟨final.1, Nat.le_trans final.2 (Nat.le_of_lt shorter)⟩)
termination_by (cs.length, 6)
decreasing_by
  · exact Prod.Lex.left _ _ operand.2
  · exact Prod.Lex.left _ _ (Nat.lt_trans rest.2 operand.2)

def product? (cs : List Char) : Option (Expr × Shorter cs) :=
  match unary? cs with
  | none => none
  | some (first, rest) =>
    let (e, final) := moreFactors first rest.1
    some (e, ⟨final.1, Nat.lt_of_le_of_lt final.2 rest.2⟩)
termination_by (cs.length, 5)

/-- Adds to a product every further factor: one that an operator joins to it, or, where no operator
with a factor behind it stands, a power standing right beside it. -/
def moreFactors (e : Expr) (cs : List Char) :
    Expr × { rest : List Char // rest.length ≤ cs.length } :=
  match factor? cs with
  | none => (e, ⟨cs, Nat.le_refl _⟩)
  | some ((node, factor), rest) =>
    let (e', final) := moreFactors (node e factor) rest.1
    (e', ⟨final.1, Nat.le_trans final.2 (Nat.le_of_lt rest.2)⟩)
termination_by (cs.length, 4)

def factor? (cs : List Char) : Option (((Expr → Expr → Expr) × Expr) × Shorter cs) :=
  let joined : Option (((Expr → Expr → Expr) × Expr) × Shorter cs) :=
    match productOperator? cs with
    | none => none
    | some (node, operand) =>
      match unary? operand.1 with
      | none => none
      | some (factor, rest) => some ((node, factor), ⟨rest.1, Nat.lt_trans rest.2 operand.2⟩)
  match joined with
  | some found => some found
  | none =>
    match power? cs with
    | none => none
    | some (factor, rest) => some ((Expr.mul, factor), rest)
termination_by (cs.length, 3)

/-- Reads an operand with any number of signs before it; a plus sign leaves no trace. -/
def unary? (cs : List Char) : Option (Expr × Shorter cs) :=
  let negative : Option (Expr × Shorter cs) :=
    match symbol? '-' cs with
    | none => none
    | some (_, operand) =>
      match unary? operand.1 with
      | none => none
      | some (e, rest) => some (.neg e, ⟨rest.1, Nat.lt_trans rest.2 operand.2⟩)
  match negative with
  | some found => some found
  | none =>
    let positive : Option (Expr × Shorter cs) :=
      match symbol? '+' cs with
      | none => none
      | some (_, operand) =>
        match unary? operand.1 with
        | none => none
        | some (e, rest) => some (e, ⟨rest.1, Nat.lt_trans rest.2 operand.2⟩)
    match positive with
    | some found => some found
    | none => power? cs
termination_by (cs.length, 3)

def power? (cs : List Char) : Option (Expr × Shorter cs) :=
  match primary? cs with
  | none => none
  | some (base, rest) =>
    match powerOperator? rest.1 with
    | none => some (base, rest)
    | some (_, operand) =>
      match unary? operand.1 with
      | none => some (base, rest)
      | some (exponent, final) =>
        some (.pow base exponent,
          ⟨final.1, Nat.lt_trans final.2 (Nat.lt_trans operand.2 rest.2)⟩)
termination_by (cs.length, 2)
decreasing_by
  · exact Prod.Lex.right _ (by decide)
  · exact Prod.Lex.left _ _ (Nat.lt_trans operand.2 rest.2)

def primary? (cs : List Char) : Option (Expr × Shorter cs) :=
  match bracketed? cs with
  | some found => some found
  | none =>
    match application? cs with
    | some found => some found
    | none =>
      match number? cs with
      | some found => some found
      | none => letter? cs
termination_by (cs.length, 1)

def bracketed? (cs : List Char) : Option (Expr × Shorter cs) :=
  match symbol? '(' cs with
  | none => none
  | some (_, inside) =>
    match sum? inside.1 with
    | none => none
    | some (e, rest) =>
      match symbol? ')' rest.1 with
      | none => none
      | some (_, final) =>
        some (e, ⟨final.1, Nat.lt_trans final.2 (Nat.lt_trans rest.2 inside.2)⟩)
termination_by (cs.length, 0)

/-- Reads a function name and its argument, in brackets or a power. -/
def application? (cs : List Char) : Option (Expr × Shorter cs) :=
  match function? cs with
  | none => none
  | some (node, argument) =>
    match bracketed? argument.1 with
    | some (e, rest) => some (node e, ⟨rest.1, Nat.lt_trans rest.2 argument.2⟩)
    | none =>
      match power? argument.1 with
      | some (e, rest) => some (node e, ⟨rest.1, Nat.lt_trans rest.2 argument.2⟩)
      | none => none
termination_by (cs.length, 0)

end

end Reader

inductive ParseFailure where
  /-- No expression starts here. -/
  | noExpression (rest : List Char)
  /-- An expression was read and this is left over. -/
  | leftOver (rest : List Char)
  deriving DecidableEq, Repr

def parse (text : String) : Except ParseFailure Expr :=
  let start := Reader.skipBlanks text.toList
  match Reader.sum? start with
  | none => .error (.noExpression start)
  | some (e, rest) =>
    match Reader.skipBlanks rest.1 with
    | [] => .ok e
    | left => .error (.leftOver left)

end Tutor.Expr
