import Mathlib.Logic.Function.Iterate
import Mathlib.Tactic.SplitIfs
import Tutor.Simplify.Pass

/-!
Repeated passes. The table that passes share holds simplified forms only: it starts empty, and what a pass
adds to it is what the pass without a table returns. So every pass gives what it gives without the table,
whatever was remembered before; and as an expression that a pass leaves as it is stays so, passes that stop
early are the iterates of one pass. Their number may therefore be split up at will.
-/

set_option autoImplicit false
set_option relaxedAutoImplicit false

namespace Tutor.Expr

open Simplify (node)

variable {e : Expr}

/-! ### The table -/

def Simplified.Correct (known : Simplified) : Prop :=
  ∀ e f : Expr, known[e]? = some f → f = e.simplify

private theorem Simplified.correct_empty : Simplified.Correct ∅ := by
  intro e f h
  simp at h

theorem Simplified.Correct.insert {known : Simplified} (h : known.Correct) (e : Expr) :
    Simplified.Correct (known.insert e e.simplify) := by
  intro e' f hf
  rw [Std.HashMap.getElem?_insert] at hf
  split_ifs at hf with he
  · rw [← eq_of_beq he, Option.some.inj hf]
  · exact h e' f hf

/-! ### One pass -/

/-- Work that gives a certain form from every correct table, and leaves a correct one. -/
def Computes (work : StateM Simplified Expr) (form : Expr) : Prop :=
  ∀ known : Simplified, known.Correct →
    (work.run known).1 = form ∧ Simplified.Correct (work.run known).2

private theorem computes_pure (e : Expr) : Computes (pure e) e := fun _ hknown => ⟨rfl, hknown⟩

theorem Computes.map {work : StateM Simplified Expr} {a : Expr} (h : Computes work a)
    (f : Expr → Expr) : Computes (do return f (← work)) (f a) := by
  intro known hknown
  obtain ⟨value, correct⟩ := h known hknown
  exact ⟨congrArg f value, correct⟩

private theorem Computes.map₂ {work work' : StateM Simplified Expr} {a b : Expr} (h : Computes work a)
    (h' : Computes work' b) (f : Expr → Expr → Expr) :
    Computes (do return f (← work) (← work')) (f a b) := by
  intro known hknown
  obtain ⟨value, correct⟩ := h known hknown
  obtain ⟨value', correct'⟩ := h' _ correct
  exact ⟨congrArg₂ f value value', correct'⟩

private theorem run_remembered (e : Expr) (work : StateM Simplified Expr) (known : Simplified) :
    (remembered e work).run known =
      match known[e]? with
      | some f => (f, known)
      | none => ((work.run known).1, (work.run known).2.insert e (work.run known).1) := by
  change (match known[e]? with
    | some f => pure f
    | none => do
      let f ← work
      modify (·.insert e f)
      return f : StateM Simplified Expr).run known = _
  split <;> rfl

theorem Computes.remembered {work : StateM Simplified Expr} (h : Computes work e.simplify) :
    Computes (remembered e work) e.simplify := by
  intro known hknown
  rw [run_remembered]
  cases hit : known[e]? with
  | some f => exact ⟨hknown e f hit, hknown⟩
  | none =>
    obtain ⟨value, correct⟩ := h known hknown
    rw [value]
    exact ⟨rfl, correct.insert e⟩

private theorem computes_simplifyM (e : Expr) : Computes e.simplifyM e.simplify := by
  induction e with
  | var v => exact (computes_pure _).remembered
  | const q => exact (computes_pure _).remembered
  | add a b iha ihb => exact (iha.map₂ ihb fun x y => node (.add x y)).remembered
  | sub a b iha ihb => exact (iha.map₂ ihb fun x y => node (.sub x y)).remembered
  | mul a b iha ihb => exact (iha.map₂ ihb fun x y => node (.mul x y)).remembered
  | div a b iha ihb => exact (iha.map₂ ihb fun x y => node (.div x y)).remembered
  | pow a b iha ihb => exact (iha.map₂ ihb fun x y => node (.pow x y)).remembered
  | neg a ih => exact (ih.map fun x => node (.neg x)).remembered
  | sin a ih => exact (ih.map fun x => node (.sin x)).remembered
  | cos a ih => exact (ih.map fun x => node (.cos x)).remembered
  | tan a ih => exact (ih.map fun x => node (.tan x)).remembered
  | exp a ih => exact (ih.map fun x => node (.exp x)).remembered
  | log a ih => exact (ih.map fun x => node (.log x)).remembered

/-! ### Repeated passes -/

/-- Passes over a shared table are the iterates of one pass: where they stop early, a further pass
changes nothing. -/
private theorem passes_eq_iterate {known : Simplified} (hknown : known.Correct) (e : Expr) (limit : Nat) :
    passes known e limit = simplify^[limit] e := by
  induction limit generalizing known e with
  | zero => rfl
  | succ limit ih =>
    have run := computes_simplifyM e known hknown
    rw [passes]
    rcases hrun : (simplifyM e).run known with ⟨next, table⟩
    rw [hrun] at run
    obtain ⟨rfl, correct⟩ := run
    dsimp only
    split_ifs with fixed
    · exact (Function.iterate_fixed fixed _).symm
    · rw [ih correct, Function.iterate_succ_apply]

private theorem simplifyWithLimit_eq_iterate (e : Expr) (limit : Nat) :
    e.simplifyWithLimit limit = simplify^[limit] e :=
  passes_eq_iterate Simplified.correct_empty e limit

/-- What one pass keeps, any number of passes keeps. -/
theorem simplifyWithLimit_keeps {P : Expr → Prop} (pass : ∀ e, P e → P e.simplify) (he : P e)
    (limit : Nat) : P (e.simplifyWithLimit limit) := by
  rw [simplifyWithLimit_eq_iterate]
  exact Function.Iterate.rec P he pass limit

theorem simplifyFully_eq_iterate (e : Expr) : e.simplifyFully = simplify^[fullPasses] e :=
  simplifyWithLimit_eq_iterate e fullPasses

/-- Repeated simplification composes. Passes up to a limit are that many iterates of the pass without a
table; and up to the sum of two limits they give what is given by passes up to the second limit, with a new
table, on the result of passes up to the first. -/
theorem simplifyWithLimit_composes (e : Expr) (m n : Nat) :
    e.simplifyWithLimit (m + n) = (e.simplifyWithLimit m).simplifyWithLimit n ∧
      e.simplifyWithLimit n = simplify^[n] e := by
  refine ⟨?_, simplifyWithLimit_eq_iterate e n⟩
  calc e.simplifyWithLimit (m + n)
      = simplify^[n + m] e := by rw [simplifyWithLimit_eq_iterate, Nat.add_comm]
    _ = simplify^[n] (simplify^[m] e) := Function.iterate_add_apply simplify n m e
    _ = (e.simplifyWithLimit m).simplifyWithLimit n := by
        rw [simplifyWithLimit_eq_iterate, simplifyWithLimit_eq_iterate]

end Tutor.Expr
