import Mathlib.Algebra.BigOperators.Group.List.Basic
import Tutor.Proofs.Expr.Order
import Tutor.Proofs.Simplify.Power
import Tutor.Simplify.Product

/-!
Products keep their value: the factors of a defined product are defined and multiply to it, merging
equal bases keeps the product of the powers, and splitting a coefficient off divides it out.
-/

set_option autoImplicit false
set_option relaxedAutoImplicit false

namespace Tutor.Simplify

open Tutor.Expr (Denotes DefinedAt evalAt)

variable {ρ : String → ℝ} {e : Expr} {es : List Expr} {x y : ℝ}

theorem denotes_foldl {node : Expr → Expr → Expr} (op : ℝ → ℝ → ℝ)
    (hnode : ∀ {a b : Expr} {x y : ℝ}, Denotes ρ a x → Denotes ρ b y → Denotes ρ (node a b) (op x y))
    (he : Denotes ρ e x) (hes : ∀ f ∈ es, f.DefinedAt ρ) :
    Denotes ρ (es.foldl node e) ((es.map (evalAt ρ)).foldl op x) := by
  induction es generalizing e x with
  | nil => exact he
  | cons f es ih =>
    simp only [List.mem_cons, forall_eq_or_imp] at hes
    exact ih (hnode he hes.1.denotes) hes.2

structure DenotesProduct (ρ : String → ℝ) (es : List Expr) (r : ℝ) : Prop where
  defined : ∀ e ∈ es, e.DefinedAt ρ
  value : (es.map (evalAt ρ)).prod = r

namespace DenotesProduct

theorem nil : DenotesProduct ρ [] 1 := ⟨by simp, rfl⟩

theorem cons (he : Denotes ρ e x) (hes : DenotesProduct ρ es y) :
    DenotesProduct ρ (e :: es) (x * y) := by
  refine ⟨?_, by rw [List.map_cons, List.prod_cons, he.value, hes.value]⟩
  simpa only [List.mem_cons, forall_eq_or_imp] using ⟨he.defined, hes.defined⟩

theorem of_cons (h : DenotesProduct ρ (e :: es) x) :
    ∃ y, e.DefinedAt ρ ∧ DenotesProduct ρ es y ∧ e.evalAt ρ * y = x := by
  obtain ⟨defined, rfl⟩ := h
  simp only [List.mem_cons, forall_eq_or_imp] at defined
  exact ⟨_, defined.1, ⟨defined.2, rfl⟩, by rw [List.map_cons, List.prod_cons]⟩

theorem singleton (he : Denotes ρ e x) : DenotesProduct ρ [e] x := by
  simpa using cons he nil

theorem append {fs : List Expr} (hes : DenotesProduct ρ es x) (hfs : DenotesProduct ρ fs y) :
    DenotesProduct ρ (es ++ fs) (x * y) := by
  refine ⟨?_, by rw [List.map_append, List.prod_append, hes.value, hfs.value]⟩
  intro e he
  rcases List.mem_append.mp he with he | he
  · exact hes.defined e he
  · exact hfs.defined e he

theorem perm {fs : List Expr} (hes : DenotesProduct ρ es x) (h : fs.Perm es) :
    DenotesProduct ρ fs x :=
  ⟨fun e he => hes.defined e (h.mem_iff.mp he), by rw [(h.map _).prod_eq, hes.value]⟩

end DenotesProduct

theorem denotes_factors (he : Denotes ρ e x) : DenotesProduct ρ (factors e) x := by
  induction e generalizing x with
  | mul a b iha ihb =>
    obtain ⟨p, q, ha, hb, rfl⟩ := Expr.denotes_mul.mp he
    exact (iha ha).append (ihb hb)
  | const q =>
    rw [factors.eq_def]
    simp only [Expr.isOne_iff]
    split_ifs with h
    · rw [← he.value, h, evalAt, Rat.cast_one]
      exact .nil
    · exact .singleton he
  | _ => exact .singleton he

theorem denotes_product (h : DenotesProduct ρ es x) : Denotes ρ (product es) x := by
  cases es with
  | nil =>
    rw [← h.value]
    exact Expr.denotes_one
  | cons e es =>
    obtain ⟨y, he, hes, rfl⟩ := h.of_cons
    have joined := denotes_foldl (· * ·)
      (fun ha hb => Expr.denotes_mul.mpr ⟨_, _, ha, hb, rfl⟩) he.denotes hes.defined
    rw [← hes.value, ← List.prod_cons, List.prod_eq_foldl, List.foldl_cons, one_mul]
    exact joined

structure DenotesPowers (ρ : String → ℝ) (t : Tally Expr) (r : ℝ) : Prop where
  defined : ∀ p ∈ t, p.1.DefinedAt ρ ∧ PowerDefined (p.1.evalAt ρ) p.2
  value : (t.map fun p => p.1.evalAt ρ ^ (p.2 : ℝ)).prod = r

namespace DenotesPowers

variable {t : Tally Expr} {q : Rat}

theorem nil : DenotesPowers ρ [] 1 := ⟨by simp, rfl⟩

theorem cons (he : e.DefinedAt ρ) (hq : PowerDefined (e.evalAt ρ) q) (ht : DenotesPowers ρ t x) :
    DenotesPowers ρ ((e, q) :: t) (e.evalAt ρ ^ (q : ℝ) * x) := by
  refine ⟨?_, by rw [List.map_cons, List.prod_cons, ht.value]⟩
  simpa only [List.mem_cons, forall_eq_or_imp] using ⟨⟨he, hq⟩, ht.defined⟩

theorem of_cons (h : DenotesPowers ρ ((e, q) :: t) x) :
    ∃ y, e.DefinedAt ρ ∧ PowerDefined (e.evalAt ρ) q ∧ DenotesPowers ρ t y ∧
      e.evalAt ρ ^ (q : ℝ) * y = x := by
  obtain ⟨defined, rfl⟩ := h
  simp only [List.mem_cons, forall_eq_or_imp] at defined
  exact ⟨_, defined.1.1, defined.1.2, ⟨defined.2, rfl⟩, by rw [List.map_cons, List.prod_cons]⟩

theorem book (he : e.DefinedAt ρ) (hq : PowerDefined (e.evalAt ρ) q) (ht : DenotesPowers ρ t x) :
    DenotesPowers ρ (t.book e q) (e.evalAt ρ ^ (q : ℝ) * x) := by
  induction t generalizing x with
  | nil => exact cons he hq ht
  | cons entry t ih =>
    obtain ⟨f, p⟩ := entry
    obtain ⟨y, hf, hp, hy, rfl⟩ := ht.of_cons
    simp only [Tally.book]
    split
    · exact cons he hq ht
    · rename_i same
      obtain rfl := Std.LawfulEqOrd.eq_of_compare same
      obtain ⟨defined, value⟩ := hp.add hq
      rw [← Rat.cast_add] at defined value
      have merged := cons hf defined hy
      rwa [value, mul_assoc, mul_left_comm] at merged
    · rw [mul_left_comm]
      exact cons hf hp (ih hy)

theorem ofList (h : DenotesPowers ρ t x) : DenotesPowers ρ (Tally.ofList t) x := by
  have from_acc : ∀ {acc : Tally Expr} {y : ℝ}, DenotesPowers ρ acc y →
      DenotesPowers ρ (t.foldl (fun tally entry => tally.book entry.1 entry.2) acc) (x * y) := by
    induction t generalizing x with
    | nil =>
      intro acc y hacc
      rw [← h.value]
      simpa using hacc
    | cons entry t ih =>
      intro acc y hacc
      obtain ⟨z, he, hq, ht, rfl⟩ := h.of_cons
      rw [List.foldl_cons, mul_right_comm, mul_comm]
      exact ih ht (book he hq hacc)
  simpa only [Tally.ofList, mul_one] using from_acc nil

theorem raised (h : DenotesPowers ρ t x) :
    DenotesProduct ρ (t.map fun (base, e) => raise base e) x := by
  induction t generalizing x with
  | nil =>
    rw [← h.value]
    exact .nil
  | cons entry t ih =>
    obtain ⟨y, he, hq, ht, rfl⟩ := h.of_cons
    exact .cons (denotes_raise he.denotes hq) (ih ht)

end DenotesPowers

private theorem denotes_powerOf (he : Denotes ρ e x) :
    (powerOf e).1.DefinedAt ρ ∧ PowerDefined ((powerOf e).1.evalAt ρ) (powerOf e).2 ∧
      (powerOf e).1.evalAt ρ ^ ((powerOf e).2 : ℝ) = x := by
  rw [powerOf.eq_def]
  split
  · obtain ⟨b, hb, hp, rfl⟩ := Expr.denotes_pow_const.mp he
    rw [← hb.value] at hp ⊢
    exact ⟨hb.defined, hp, rfl⟩
  · rw [Rat.cast_one, Real.rpow_one]
    exact ⟨he.defined, .one_right _, he.value⟩

private theorem denotes_powers (h : DenotesProduct ρ es x) : DenotesPowers ρ (es.map powerOf) x := by
  induction es generalizing x with
  | nil =>
    rw [← h.value]
    exact .nil
  | cons e es ih =>
    obtain ⟨y, he, hes, rfl⟩ := h.of_cons
    obtain ⟨defined, power, value⟩ := denotes_powerOf he.denotes
    rw [← value]
    exact .cons defined power (ih hes)

private theorem eq_const_of_const? {q : Rat} (h : e.const? = some q) : e = .const q := by
  cases e with
  | const p => rw [Option.some.inj h]
  | _ => cases h

private theorem split_constants (h : DenotesProduct ρ es x) :
    ∃ y, DenotesProduct ρ (es.filter fun e => e.const?.isNone) y ∧
      x = (((es.filterMap Expr.const?).prod : ℚ) : ℝ) * y := by
  induction es generalizing x with
  | nil => exact ⟨1, .nil, by rw [← h.value]; simp⟩
  | cons e es ih =>
    obtain ⟨y, he, hes, rfl⟩ := h.of_cons
    obtain ⟨z, hz, rfl⟩ := ih hes
    cases hc : e.const? with
    | none =>
      refine ⟨e.evalAt ρ * z, ?_, ?_⟩
      · rw [List.filter_cons_of_pos (by simp [hc])]
        exact .cons he.denotes hz
      · rw [List.filterMap_cons_none hc]
        ring
    | some q =>
      refine ⟨z, ?_, ?_⟩
      · rwa [List.filter_cons_of_neg (by simp [hc])]
      · rw [List.filterMap_cons_some hc, List.prod_cons, eq_const_of_const? hc, evalAt, Rat.cast_mul]
        ring

private theorem denotes_mergeFactors {a b : Expr} (ha : Denotes ρ a x) (hb : Denotes ρ b y) :
    ∃ z, Denotes ρ (mergeFactors a b).2 z ∧ x * y = (mergeFactors a b).1 * z := by
  have merged := (denotes_powers ((denotes_factors ha).append (denotes_factors hb))).ofList.raised
  obtain ⟨z, hz, value⟩ := split_constants merged
  rw [List.prod_eq_foldl] at value
  exact ⟨z, denotes_product (hz.perm (perm_sortExprs _)), value⟩

theorem denotes_splitCoeff (he : Denotes ρ e x) :
    ∃ y, Denotes ρ (splitCoeff e).2 y ∧ x = (splitCoeff e).1 * y := by
  induction e generalizing x with
  | const c => exact ⟨1, Expr.denotes_one, by rw [← he.value, mul_one]; rfl⟩
  | neg a ih =>
    obtain ⟨x, ha, rfl⟩ := Expr.denotes_neg.mp he
    obtain ⟨y, hy, rfl⟩ := ih ha
    exact ⟨y, hy, by simp [splitCoeff]⟩
  | mul a b iha ihb =>
    obtain ⟨p, q, ha, hb, rfl⟩ := Expr.denotes_mul.mp he
    obtain ⟨y, hy, rfl⟩ := iha ha
    obtain ⟨z, hz, rfl⟩ := ihb hb
    obtain ⟨w, hw, value⟩ := denotes_mergeFactors hy hz
    refine ⟨w, hw, ?_⟩
    simp only [splitCoeff, Rat.cast_mul]
    rw [mul_assoc _ _ w, ← value]
    ring
  | _ => exact ⟨x, he, by simp [splitCoeff]⟩

private theorem denotes_scaleWith {c : Rat} {negated : Expr} (he : Denotes ρ e x)
    (hn : Denotes ρ negated (-x)) : Denotes ρ (scaleWith c e negated) (c * x) := by
  simp only [scaleWith, Expr.isOne_iff]
  split_ifs with h0 hone h1 hneg
  · rw [h0, Rat.cast_zero, zero_mul]
    exact Expr.denotes_zero
  · rw [← he.value, hone, evalAt, Rat.cast_one, mul_one]
    exact Expr.denotes_const c
  · rwa [h1, Rat.cast_one, one_mul]
  · rwa [hneg, Rat.cast_neg, Rat.cast_one, neg_one_mul]
  · exact Expr.denotes_mul.mpr ⟨_, _, Expr.denotes_const c, he, rfl⟩

theorem denotes_neg (he : Denotes ρ e x) : Denotes ρ (neg e) (-x) := by
  induction e using neg.induct generalizing x with
  | case1 q =>
    rw [← he.value, neg, evalAt, ← Rat.cast_neg]
    exact Expr.denotes_const _
  | case2 a =>
    obtain ⟨y, ha, rfl⟩ := Expr.denotes_neg.mp he
    rwa [neg, neg_neg]
  | case3 c b ih =>
    obtain ⟨_, y, ⟨-, rfl⟩, hb, rfl⟩ := Expr.denotes_mul.mp he
    rw [neg, evalAt, ← neg_mul, ← Rat.cast_neg]
    exact denotes_scaleWith hb (ih hb)
  | case4 e not_const not_neg not_scaled =>
    rw [neg.eq_def]
    split
    · exact absurd rfl (not_const _)
    · exact absurd rfl (not_neg _)
    · exact absurd rfl (not_scaled _ _)
    · exact Expr.denotes_neg.mpr ⟨_, he, rfl⟩

theorem denotes_scale (c : Rat) (he : Denotes ρ e x) : Denotes ρ (scale c e) (c * x) :=
  denotes_scaleWith he (denotes_neg he)

end Tutor.Simplify
