import Mathlib.Data.List.DropRight
import Mathlib.Data.List.Infix
import Tutor.Proofs.Expr.Grammar
import Tutor.Proofs.Text.Search

/-!
The names in an expression and in a text. In a text a function name counts as one where an argument starts
behind it, and as its letters where none does.
-/

set_option autoImplicit false
set_option relaxedAutoImplicit false

namespace Tutor.Expr

open Reader

/-! ### Names -/

inductive FunctionName where
  | sqrt
  | sin
  | cos
  | tan
  | exp
  | log
  deriving DecidableEq

def FunctionName.node : FunctionName → Expr → Expr
  | .sqrt => Expr.sqrt
  | .sin => .sin
  | .cos => .cos
  | .tan => .tan
  | .exp => .exp
  | .log => .log

def named : List (List Char × FunctionName) :=
  [("sqrt".toList, .sqrt), ("sin".toList, .sin), ("cos".toList, .cos), ("tan".toList, .tan),
   ("exp".toList, .exp), ("log".toList, .log), ("ln".toList, .log)]

theorem functions_eq_named : functions = named.map fun entry => (entry.1, entry.2.node) := rfl

inductive Name where
  | var (name : String)
  | function (f : FunctionName)
  deriving DecidableEq

def Name.isFunction : Name → Bool
  | .var _ => false
  | .function _ => true

/-- The names of an expression from left to right; a power of one half is a square root. -/
def names : Expr → List Name
  | .var name => [.var name]
  | .const _ => []
  | .add a b | .sub a b | .mul a b | .div a b => a.names ++ b.names
  | .pow a b => if b = .const (1 / 2) then .function .sqrt :: a.names else a.names ++ b.names
  | .neg a => a.names
  | .sin a => .function .sin :: a.names
  | .cos a => .function .cos :: a.names
  | .tan a => .function .tan :: a.names
  | .exp a => .function .exp :: a.names
  | .log a => .function .log :: a.names

theorem names_node (f : FunctionName) (e : Expr) : (f.node e).names = .function f :: e.names := by
  cases f <;> simp [FunctionName.node, names, Expr.sqrt]

def startsArgument (cs : List Char) : Bool := (skipBlanks cs).head?.any startsOperand

/-- The function that starts a text: its name with an argument behind it. -/
def applied? (cs : List Char) : Option (List Char × FunctionName) :=
  named.find? fun entry => entry.1.isPrefixOf cs && startsArgument (cs.drop entry.1.length)

/-- The names that a text spells; `skip` more letters belong to the name found last. -/
def namesFrom (skip : Nat) : List Char → List Name
  | [] => []
  | c :: cs =>
    match skip with
    | n + 1 => namesFrom n cs
    | 0 =>
      if c.isAlpha then
        match applied? (c :: cs) with
        | some (name, f) => .function f :: namesFrom (name.length - 1) cs
        | none => .var (String.singleton c) :: namesFrom 0 cs
      else namesFrom 0 cs

def spelledNames (cs : List Char) : List Name := namesFrom 0 cs

variable {cs ds rest used name : List Char} {c : Char} {e : Expr} {f : FunctionName}

/-! ### Function names in a text -/

theorem letters_of_mem_named : ∀ entry ∈ named, 2 ≤ entry.1.length ∧ ∀ c ∈ entry.1, c.isAlpha = true := by
  simp [named]

private theorem eq_of_prefix_of_mem_named : ∀ x ∈ named, ∀ y ∈ named, x.1 <+: y.1 → x = y := by decide

theorem applied?_eq_some_iff {entry : List Char × FunctionName} :
    applied? cs = some entry ↔ entry ∈ named ∧ ∃ rest, entry.1 ++ rest = cs ∧ startsArgument rest = true := by
  constructor
  · intro h
    have found := List.find?_some h
    simp only [Bool.and_eq_true, List.isPrefixOf_iff_prefix] at found
    obtain ⟨⟨rest, rfl⟩, argument⟩ := found
    rw [List.drop_left] at argument
    exact ⟨List.mem_of_find?_eq_some h, rest, rfl, argument⟩
  · rintro ⟨mem, rest, rfl, argument⟩
    cases found : applied? (entry.1 ++ rest) with
    | none =>
      have none_here := List.find?_eq_none.mp found entry mem
      simp [argument] at none_here
    | some other =>
      have start := List.find?_some found
      simp only [Bool.and_eq_true, List.isPrefixOf_iff_prefix] at start
      have other_mem := List.mem_of_find?_eq_some found
      -- Of two names that start a text, one starts the other.
      rcases List.prefix_or_prefix_of_prefix start.1 (List.prefix_append entry.1 rest) with first | second
      · rw [eq_of_prefix_of_mem_named other other_mem entry mem first]
      · rw [eq_of_prefix_of_mem_named entry mem other other_mem second]

theorem spelledNames_applied (mem : (name, f) ∈ named) (argument : startsArgument rest = true) :
    spelledNames (name ++ rest) = .function f :: spelledNames rest := by
  obtain ⟨long, letters⟩ := letters_of_mem_named _ mem
  have found := applied?_eq_some_iff.mpr ⟨mem, rest, rfl, argument⟩
  have skipped (used : List Char) : namesFrom used.length (used ++ rest) = spelledNames rest := by
    induction used with
    | nil => rfl
    | cons c used ih => exact ih
  cases name with
  | nil => simp at long
  | cons c name =>
    rw [List.cons_append] at found ⊢
    rw [spelledNames, namesFrom, if_pos (letters c List.mem_cons_self), found]
    exact congrArg (.function f :: ·) (skipped name)

theorem spelledNames_letter (letter : c.isAlpha = true) (h : applied? (c :: cs) = none) :
    spelledNames (c :: cs) = .var (String.singleton c) :: spelledNames cs := by
  rw [spelledNames, namesFrom, if_pos letter, h]
  rfl

theorem spelledNames_append (h : ∀ c ∈ used, c.isAlpha = false) (rest : List Char) :
    spelledNames (used ++ rest) = spelledNames rest := by
  induction used with
  | nil => rfl
  | cons c used ih =>
    obtain ⟨symbol, others⟩ := List.forall_mem_cons.mp h
    rw [List.cons_append, spelledNames, namesFrom, symbol]
    exact ih others

theorem isAlpha_of_isBlank (h : isBlank c = true) : c.isAlpha = false := by
  simp only [isBlank, Bool.or_eq_true, beq_iff_eq] at h
  rcases h with ((rfl | rfl) | rfl) | rfl <;> rfl

theorem spelledNames_skipBlanks (cs : List Char) : spelledNames (skipBlanks cs) = spelledNames cs := by
  have blanks : ∀ c ∈ cs.takeWhile isBlank, c.isAlpha = false := fun c hc =>
    isAlpha_of_isBlank (List.mem_takeWhile_imp hc)
  have whole := spelledNames_append blanks (skipBlanks cs)
  rwa [skipBlanks, List.takeWhile_append_dropWhile, eq_comm] at whole

/-! ### Names that are words of their own -/

private theorem takeWhile_append_of_edge (nonempty : cs ≠ []) (edge : cs.getLast?.any Char.isAlpha = false)
    (rest : List Char) : (cs ++ rest).takeWhile Char.isAlpha = cs.takeWhile Char.isAlpha := by
  induction cs with
  | nil => exact absurd rfl nonempty
  | cons c cs ih =>
    cases letter : c.isAlpha with
    | false => simp [letter]
    | true =>
      rw [List.cons_append, List.takeWhile_cons_of_pos letter, List.takeWhile_cons_of_pos letter]
      cases cs with
      | nil =>
        have symbol : c.isAlpha = false := edge
        rw [letter] at symbol
        cases symbol
      | cons d cs => rw [ih (List.cons_ne_nil d cs) (Text.any_getLast?_of_cons edge)]

private theorem length_le_of_applied? (h : applied? cs = some (name, f)) :
    name.length ≤ (cs.takeWhile Char.isAlpha).length := by
  obtain ⟨mem, rest, rfl, -⟩ := applied?_eq_some_iff.mp h
  rw [List.takeWhile_append_of_pos (letters_of_mem_named _ mem).2, List.length_append]
  exact Nat.le_add_right _ _

theorem exists_namesFrom_append {skip : Nat} (edge : cs.getLast?.any Char.isAlpha = false)
    (inside : skip ≤ (cs.takeWhile Char.isAlpha).length) (rest : List Char) :
    ∃ front, namesFrom skip (cs ++ rest) = front ++ spelledNames rest := by
  induction cs generalizing skip with
  | nil =>
    obtain rfl := Nat.le_zero.mp inside
    exact ⟨[], rfl⟩
  | cons c cs ih =>
    have later := Text.any_getLast?_of_cons edge
    cases letter : c.isAlpha with
    | false =>
      rw [List.takeWhile_cons_of_neg (by simp [letter])] at inside
      obtain rfl := Nat.le_zero.mp inside
      obtain ⟨front, split⟩ := ih later (Nat.zero_le _)
      refine ⟨front, ?_⟩
      rw [List.cons_append, namesFrom, letter]
      exact split
    | true =>
      rw [List.takeWhile_cons_of_pos letter, List.length_cons] at inside
      cases skip with
      | succ n => exact ih later (Nat.le_of_succ_le_succ inside)
      | zero =>
        rw [List.cons_append, namesFrom, if_pos letter]
        split
        · rename_i name f found
          have long := length_le_of_applied? found
          rw [← List.cons_append, takeWhile_append_of_edge (List.cons_ne_nil c cs) edge,
            List.takeWhile_cons_of_pos letter, List.length_cons] at long
          obtain ⟨front, split⟩ := ih later (Nat.sub_le_of_le_add long)
          exact ⟨.function f :: front, by rw [split, List.cons_append]⟩
        · obtain ⟨front, split⟩ := ih later (Nat.zero_le _)
          exact ⟨.var (String.singleton c) :: front, by rw [split, List.cons_append]⟩

private theorem prefix_of_edge (letters : ∀ c ∈ name, c.isAlpha = true) (join : name ++ ds = used ++ rest)
    (ends : rest.head?.any Char.isAlpha = false) : name <+: used := by
  rcases List.append_eq_append_iff.mp join with ⟨more, start, -⟩ | ⟨more, start, same⟩
  · exact ⟨more, start.symm⟩
  · cases more with
    | nil =>
      rw [List.append_nil] at start
      rw [start]
    | cons d more =>
      have letter := letters d (by simp [start])
      rw [same, List.cons_append, List.head?_cons, Option.any_some, letter] at ends
      cases ends

theorem eq_of_prefix_of_suffix : ∀ x ∈ named, ∀ y ∈ named, ∀ s ∈ y.1.tails, x.1 <+: s → s = x.1 := by decide

theorem spelledNames_unapplied (mem : (name, f) ∈ named) (ends : rest.head?.any Char.isAlpha = false)
    (unapplied : startsArgument rest = false) :
    spelledNames (name ++ rest) = name.map (fun c => .var (String.singleton c)) ++ spelledNames rest := by
  have letters := (letters_of_mem_named _ mem).2
  suffices h : ∀ s, s <:+ name →
      spelledNames (s ++ rest) = s.map (fun c => .var (String.singleton c)) ++ spelledNames rest from
    h name (List.suffix_refl name)
  intro s part
  induction s with
  | nil => rfl
  | cons c s ih =>
    have alone : applied? (c :: (s ++ rest)) = none := by
      rw [Option.eq_none_iff_forall_ne_some]
      rintro ⟨other, g⟩ found
      obtain ⟨other_mem, behind, join, argument⟩ := applied?_eq_some_iff.mp found
      have split : other ++ behind = c :: s ++ rest := join
      have start : other <+: c :: s := prefix_of_edge (letters_of_mem_named _ other_mem).2 split ends
      have whole := eq_of_prefix_of_suffix _ other_mem _ mem _ ((List.mem_tails _ _).mpr part) start
      rw [whole] at split
      obtain rfl := List.append_cancel_left split
      rw [argument] at unapplied
      cases unapplied
    rw [List.cons_append, spelledNames_letter (letters c (part.subset List.mem_cons_self)) alone,
      ih ((List.suffix_cons c s).trans part)]
    rfl

def isApplied (cs : List Char) : Bool :=
  named.any fun entry => entry.1 == cs.takeWhile Char.isAlpha && startsArgument (cs.dropWhile Char.isAlpha)

/-- The number of longest runs of letters that are names of functions with an argument behind them. -/
def appliedRuns (behindLetter : Bool) : List Char → Nat
  | [] => 0
  | c :: cs => (if !behindLetter && isApplied (c :: cs) then 1 else 0) + appliedRuns c.isAlpha cs

private theorem exists_applied?_of_isApplied (h : isApplied cs = true) :
    ∃ f, applied? cs = some (cs.takeWhile Char.isAlpha, f) := by
  obtain ⟨⟨name, f⟩, mem, found⟩ := List.any_eq_true.mp h
  obtain ⟨same, argument⟩ := Bool.and_eq_true_iff.mp found
  obtain rfl := eq_of_beq same
  exact ⟨f, applied?_eq_some_iff.mpr ⟨mem, _, List.takeWhile_append_dropWhile, argument⟩⟩

theorem appliedRuns_le_countP {skip : Nat} {behindLetter : Bool}
    (inside : skip ≤ (cs.takeWhile Char.isAlpha).length) (started : 0 < skip → behindLetter = true) :
    appliedRuns behindLetter cs ≤ (namesFrom skip cs).countP Name.isFunction := by
  induction cs generalizing skip behindLetter with
  | nil => exact Nat.zero_le _
  | cons c cs ih =>
    cases letter : c.isAlpha with
    | false =>
      rw [List.takeWhile_cons_of_neg (by simp [letter])] at inside
      obtain rfl := Nat.le_zero.mp inside
      have nameless : isApplied (c :: cs) = false := by
        rw [isApplied, List.takeWhile_cons_of_neg (by simp [letter])]
        simp [named]
      rw [appliedRuns, nameless, namesFrom, letter]
      simpa using ih (Nat.zero_le _) (by simp)
    | true =>
      have run : (c :: cs).takeWhile Char.isAlpha = c :: cs.takeWhile Char.isAlpha :=
        List.takeWhile_cons_of_pos letter
      cases skip with
      | succ n =>
        rw [run, List.length_cons] at inside
        obtain rfl := started (Nat.succ_pos n)
        rw [appliedRuns, namesFrom, letter]
        simpa using ih (Nat.le_of_succ_le_succ inside) fun _ => rfl
      | zero =>
        rw [appliedRuns, namesFrom, if_pos letter, letter]
        cases found : applied? (c :: cs) with
        | none =>
          have nameless : isApplied (c :: cs) = false := by
            rw [Bool.eq_false_iff]
            intro named
            obtain ⟨f, applied⟩ := exists_applied?_of_isApplied named
            rw [found] at applied
            cases applied
          rw [nameless]
          simpa [Name.isFunction] using ih (Nat.zero_le _) fun _ => rfl
        | some entry =>
          obtain ⟨name, f⟩ := entry
          have long := length_le_of_applied? found
          rw [run, List.length_cons] at long
          have later := ih (Nat.sub_le_of_le_add long) fun _ => rfl
          have one : (if !behindLetter && isApplied (c :: cs) then 1 else 0) ≤ 1 := by split <;> omega
          rw [List.countP_cons_of_pos (by rfl), Nat.add_comm]
          exact Nat.add_le_add later one

end Tutor.Expr
