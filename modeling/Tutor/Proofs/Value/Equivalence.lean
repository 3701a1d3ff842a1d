import Tutor.Proofs.Value.Real

/-!
Expressions that denote the same partial function: they are defined under the same assignments, with the
same values. Every node respects this, and signs, sums, products and quotients may be regrouped.
-/

set_option autoImplicit false
set_option relaxedAutoImplicit false

namespace Tutor.Expr

def Equivalent (a b : Expr) : Prop := ∀ ρ r, Denotes ρ a r ↔ Denotes ρ b r

namespace Equivalent

variable {a b c d : Expr}

theorem refl (a : Expr) : Equivalent a a := fun _ _ => Iff.rfl

theorem symm (h : Equivalent a b) : Equivalent b a := fun ρ r => (h ρ r).symm

theorem trans (hab : Equivalent a b) (hbc : Equivalent b c) : Equivalent a c :=
  fun ρ r => (hab ρ r).trans (hbc ρ r)

theorem definedAt_iff (h : Equivalent a b) (ρ : String → ℝ) : a.DefinedAt ρ ↔ b.DefinedAt ρ :=
  ⟨fun ha => ((h ρ _).mp ha.denotes).defined, fun hb => ((h ρ _).mpr hb.denotes).defined⟩

theorem evalAt_eq (h : Equivalent a b) {ρ : String → ℝ} (hb : b.DefinedAt ρ) : a.evalAt ρ = b.evalAt ρ :=
  ((h ρ _).mpr hb.denotes).value

private theorem of_evalAt_eq (defined : ∀ ρ, a.DefinedAt ρ ↔ b.DefinedAt ρ) (value : ∀ ρ, a.evalAt ρ = b.evalAt ρ) :
    Equivalent a b := by
  intro ρ r
  constructor
  · rintro ⟨ha, rfl⟩
    exact ⟨(defined ρ).mp ha, (value ρ).symm⟩
  · rintro ⟨hb, rfl⟩
    exact ⟨(defined ρ).mpr hb, value ρ⟩

/-! Every node of equivalent parts gives equivalent expressions. -/

theorem add (ha : Equivalent a c) (hb : Equivalent b d) : Equivalent (.add a b) (.add c d) := by
  intro ρ r
  simp only [denotes_add, ha ρ _, hb ρ _]

theorem sub (ha : Equivalent a c) (hb : Equivalent b d) : Equivalent (.sub a b) (.sub c d) := by
  intro ρ r
  simp only [denotes_sub, ha ρ _, hb ρ _]

theorem mul (ha : Equivalent a c) (hb : Equivalent b d) : Equivalent (.mul a b) (.mul c d) := by
  intro ρ r
  simp only [denotes_mul, ha ρ _, hb ρ _]

theorem div (ha : Equivalent a c) (hb : Equivalent b d) : Equivalent (.div a b) (.div c d) := by
  intro ρ r
  simp only [denotes_div, ha ρ _, hb ρ _]

theorem pow (ha : Equivalent a c) (hb : Equivalent b d) : Equivalent (.pow a b) (.pow c d) := by
  intro ρ r
  simp only [denotes_pow, ha ρ _, hb ρ _]

theorem neg (h : Equivalent a b) : Equivalent (.neg a) (.neg b) := by
  intro ρ r
  simp only [denotes_neg, h ρ _]

theorem sin (h : Equivalent a b) : Equivalent (.sin a) (.sin b) := by
  intro ρ r
  simp only [denotes_sin, h ρ _]

theorem cos (h : Equivalent a b) : Equivalent (.cos a) (.cos b) := by
  intro ρ r
  simp only [denotes_cos, h ρ _]

theorem tan (h : Equivalent a b) : Equivalent (.tan a) (.tan b) := by
  intro ρ r
  simp only [denotes_tan, h ρ _]

theorem exp (h : Equivalent a b) : Equivalent (.exp a) (.exp b) := by
  intro ρ r
  simp only [denotes_exp, h ρ _]

theorem log (h : Equivalent a b) : Equivalent (.log a) (.log b) := by
  intro ρ r
  simp only [denotes_log, h ρ _]

end Equivalent

/-! Signs moved and operations regrouped. -/

section Regrouping

variable (a b c : Expr)

theorem equivalent_neg_neg : Equivalent (.neg (.neg a)) a :=
  .of_evalAt_eq (fun _ => Iff.rfl) fun ρ => neg_neg (a.evalAt ρ)

theorem equivalent_add_neg : Equivalent (.add a (.neg b)) (.sub a b) :=
  .of_evalAt_eq (fun _ => Iff.rfl) fun ρ => (sub_eq_add_neg (a.evalAt ρ) (b.evalAt ρ)).symm

theorem equivalent_sub_neg : Equivalent (.sub a (.neg b)) (.add a b) :=
  .of_evalAt_eq (fun _ => Iff.rfl) fun ρ => sub_neg_eq_add (a.evalAt ρ) (b.evalAt ρ)

theorem equivalent_neg_mul : Equivalent (.mul (.neg a) b) (.neg (.mul a b)) :=
  .of_evalAt_eq (fun _ => Iff.rfl) fun ρ => neg_mul (a.evalAt ρ) (b.evalAt ρ)

theorem equivalent_mul_neg : Equivalent (.mul a (.neg b)) (.neg (.mul a b)) :=
  .of_evalAt_eq (fun _ => Iff.rfl) fun ρ => mul_neg (a.evalAt ρ) (b.evalAt ρ)

theorem equivalent_neg_div : Equivalent (.div (.neg a) b) (.neg (.div a b)) :=
  .of_evalAt_eq (fun _ => Iff.rfl) fun ρ => neg_div (b.evalAt ρ) (a.evalAt ρ)

theorem equivalent_div_neg : Equivalent (.div a (.neg b)) (.neg (.div a b)) := by
  refine .of_evalAt_eq (fun ρ => ?_) fun ρ => div_neg (a.evalAt ρ)
  have nonzero : -b.evalAt ρ ≠ 0 ↔ b.evalAt ρ ≠ 0 := neg_ne_zero
  exact and_congr_right' (and_congr_right' nonzero)

theorem equivalent_mul_assoc : Equivalent (.mul (.mul a b) c) (.mul a (.mul b c)) :=
  .of_evalAt_eq (fun _ => and_assoc) fun ρ => mul_assoc (a.evalAt ρ) (b.evalAt ρ) (c.evalAt ρ)

theorem equivalent_mul_div : Equivalent (.div (.mul a b) c) (.mul a (.div b c)) :=
  .of_evalAt_eq (fun _ => and_assoc) fun ρ => mul_div_assoc (a.evalAt ρ) (b.evalAt ρ) (c.evalAt ρ)

theorem equivalent_neg_const (q : Rat) : Equivalent (.neg (.const q)) (.const (-q)) :=
  .of_evalAt_eq (fun _ => Iff.rfl) fun _ => (Rat.cast_neg q).symm

theorem equivalent_num_div_den (q : Rat) : Equivalent (.div (.const q.num) (.const q.den)) (.const q) := by
  have nonzero : ((q.den : Rat) : ℝ) ≠ 0 := by exact_mod_cast q.den_nz
  have value : ((q.num : Rat) : ℝ) / ((q.den : Rat) : ℝ) = q := by
    rw [← Rat.cast_div, Rat.num_div_den]
  exact .of_evalAt_eq (fun _ => ⟨fun _ => trivial, fun _ => ⟨trivial, trivial, nonzero⟩⟩) fun _ => value

end Regrouping

end Tutor.Expr
