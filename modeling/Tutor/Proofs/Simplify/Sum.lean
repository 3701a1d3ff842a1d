import Tutor.Proofs.Simplify.Product
import Tutor.Simplify.Sum

/-!
Sums, products over sums and quotients keep their value: collecting like terms adds the amounts that
are booked under one product, and multiplying out is done term by term.
-/

set_option autoImplicit false
set_option relaxedAutoImplicit false

namespace Tutor.Simplify

open Tutor.Expr (Denotes DefinedAt evalAt)

variable {ρ : String → ℝ} {e : Expr} {es : List Expr} {x y : ℝ}

structure DenotesSum (ρ : String → ℝ) (es : List Expr) (r : ℝ) : Prop where
  defined : ∀ e ∈ es, e.DefinedAt ρ
  value : (es.map (evalAt ρ)).sum = r

namespace DenotesSum

theorem nil : DenotesSum ρ [] 0 := ⟨by simp, rfl⟩

theorem cons (he : Denotes ρ e x) (hes : DenotesSum ρ es y) : DenotesSum ρ (e :: es) (x + y) := by
  refine ⟨?_, by rw [List.map_cons, List.sum_cons, he.value, hes.value]⟩
  simpa only [List.mem_cons, forall_eq_or_imp] using ⟨he.defined, hes.defined⟩

theorem of_cons (h : DenotesSum ρ (e :: es) x) :
    ∃ y, e.DefinedAt ρ ∧ DenotesSum ρ es y ∧ e.evalAt ρ + y = x := by
  obtain ⟨defined, rfl⟩ := h
  simp only [List.mem_cons, forall_eq_or_imp] at defined
  exact ⟨_, defined.1, ⟨defined.2, rfl⟩, by rw [List.map_cons, List.sum_cons]⟩

theorem singleton (he : Denotes ρ e x) : DenotesSum ρ [e] x := by
  simpa using cons he nil

theorem append {fs : List Expr} (hes : DenotesSum ρ es x) (hfs : DenotesSum ρ fs y) :
    DenotesSum ρ (es ++ fs) (x + y) := by
  refine ⟨?_, by rw [List.map_append, List.sum_append, hes.value, hfs.value]⟩
  intro e he
  rcases List.mem_append.mp he with he | he
  · exact hes.defined e he
  · exact hfs.defined e he

theorem map_neg (h : DenotesSum ρ es x) : DenotesSum ρ (es.map neg) (-x) := by
  induction es generalizing x with
  | nil =>
    rw [← h.value, List.map_nil, List.map_nil, List.sum_nil, neg_zero]
    exact nil
  | cons e es ih =>
    obtain ⟨y, he, hes, rfl⟩ := h.of_cons
    rw [neg_add]
    exact cons (denotes_neg he.denotes) (ih hes)

end DenotesSum

private theorem denotes_terms (he : Denotes ρ e x) : DenotesSum ρ (terms e) x := by
  induction e generalizing x with
  | add a b iha ihb =>
    obtain ⟨p, q, ha, hb, rfl⟩ := Expr.denotes_add.mp he
    exact (iha ha).append (ihb hb)
  | sub a b iha ihb =>
    obtain ⟨p, q, ha, hb, rfl⟩ := Expr.denotes_sub.mp he
    rw [sub_eq_add_neg]
    exact (iha ha).append (ihb hb).map_neg
  | neg a ih =>
    obtain ⟨p, ha, rfl⟩ := Expr.denotes_neg.mp he
    exact (ih ha).map_neg
  | _ => exact .singleton he

private theorem denotes_sum (h : DenotesSum ρ es x) : Denotes ρ (sum es) x := by
  cases es with
  | nil =>
    rw [← h.value]
    exact Expr.denotes_zero
  | cons e es =>
    obtain ⟨y, he, hes, rfl⟩ := h.of_cons
    have joined := denotes_foldl (· + ·)
      (fun ha hb => Expr.denotes_add.mpr ⟨_, _, ha, hb, rfl⟩) he.denotes hes.defined
    rw [← hes.value, ← List.sum_cons, List.sum_eq_foldl, List.foldl_cons, zero_add]
    exact joined

/-- All factors of the terms of a tally are defined, and this is the sum of the amounts times the
products they are booked under. -/
structure DenotesLikeTerms (ρ : String → ℝ) (t : Tally (List Expr)) (r : ℝ) : Prop where
  defined : ∀ p ∈ t, ∀ e ∈ p.1, e.DefinedAt ρ
  value : (t.map fun p => (p.2 : ℝ) * (p.1.map (evalAt ρ)).prod).sum = r

namespace DenotesLikeTerms

variable {t : Tally (List Expr)} {c : Rat}

theorem nil : DenotesLikeTerms ρ [] 0 := ⟨by simp, rfl⟩

theorem cons (c : Rat) (hes : DenotesProduct ρ es x) (ht : DenotesLikeTerms ρ t y) :
    DenotesLikeTerms ρ ((es, c) :: t) (c * x + y) := by
  refine ⟨?_, by rw [List.map_cons, List.sum_cons, ht.value, hes.value]⟩
  simpa only [List.mem_cons, forall_eq_or_imp] using ⟨hes.defined, ht.defined⟩

theorem of_cons (h : DenotesLikeTerms ρ ((es, c) :: t) x) :
    ∃ y z, DenotesProduct ρ es y ∧ DenotesLikeTerms ρ t z ∧ c * y + z = x := by
  obtain ⟨defined, rfl⟩ := h
  simp only [List.mem_cons, forall_eq_or_imp] at defined
  exact ⟨_, _, ⟨defined.1, rfl⟩, ⟨defined.2, rfl⟩, by rw [List.map_cons, List.sum_cons]⟩

theorem book (c : Rat) (hes : DenotesProduct ρ es x) (ht : DenotesLikeTerms ρ t y) :
    DenotesLikeTerms ρ (t.book es c) (c * x + y) := by
  induction t generalizing y with
  | nil => exact cons c hes ht
  | cons entry t ih =>
    obtain ⟨fs, d⟩ := entry
    obtain ⟨v, w, hfs, hw, rfl⟩ := ht.of_cons
    simp only [Tally.book]
    split
    · exact cons c hes ht
    · rename_i same
      obtain rfl := Std.LawfulEqOrd.eq_of_compare same
      obtain rfl : x = v := by rw [← hes.value, hfs.value]
      have merged := cons (d + c) hes hw
      rwa [Rat.cast_add, add_comm (d : ℝ), add_mul, add_assoc] at merged
    · rw [add_left_comm]
      exact cons d hfs (ih hw)

theorem ofList (h : DenotesLikeTerms ρ t x) : DenotesLikeTerms ρ (Tally.ofList t) x := by
  have from_acc : ∀ {acc : Tally (List Expr)} {y : ℝ}, DenotesLikeTerms ρ acc y →
      DenotesLikeTerms ρ (t.foldl (fun tally entry => tally.book entry.1 entry.2) acc) (x + y) := by
    induction t generalizing x with
    | nil =>
      intro acc y hacc
      rw [← h.value]
      simpa using hacc
    | cons entry t ih =>
      intro acc y hacc
      obtain ⟨v, w, hv, hw, rfl⟩ := h.of_cons
      rw [List.foldl_cons, add_right_comm, add_comm]
      exact ih hw (book entry.2 hv hacc)
  simpa only [Tally.ofList, add_zero] using from_acc nil

theorem split (h : DenotesLikeTerms ρ t x) :
    ∃ y z, DenotesSum ρ (((t.filter fun (_, c) => c ≠ 0).filter fun (key, _) => !key.isEmpty).map
        fun (key, c) => scale c (product key)) y ∧
      DenotesSum ρ (((t.filter fun (_, c) => c ≠ 0).filter fun (key, _) => key.isEmpty).map
        fun (_, c) => .const c) z ∧ y + z = x := by
  induction t generalizing x with
  | nil => exact ⟨0, 0, .nil, .nil, by rw [← h.value]; simp⟩
  | cons entry t ih =>
    obtain ⟨key, c⟩ := entry
    obtain ⟨v, w, hkey, hw, rfl⟩ := h.of_cons
    obtain ⟨y, z, hy, hz, rfl⟩ := ih hw
    by_cases h0 : c = 0
    · refine ⟨y, z, ?_, ?_, by rw [h0, Rat.cast_zero, zero_mul, zero_add]⟩
      · simpa [h0] using hy
      · simpa [h0] using hz
    · cases key with
      | nil =>
        refine ⟨y, c * v + z, by simpa [h0] using hy, ?_, add_left_comm _ _ _⟩
        have constant : DenotesSum ρ (.const c :: _) (c + z) := .cons (Expr.denotes_const c) hz
        rw [← hkey.value]
        simpa [h0] using constant
      | cons f fs =>
        refine ⟨c * v + y, z, ?_, by simpa [h0] using hz, add_assoc _ _ _⟩
        have term := DenotesSum.cons (denotes_scale c (denotes_product hkey)) hy
        simpa [h0] using term

end DenotesLikeTerms

private theorem denotes_collect (h : DenotesSum ρ es x) : DenotesLikeTerms ρ (collect es) x := by
  apply DenotesLikeTerms.ofList
  induction es generalizing x with
  | nil =>
    rw [← h.value]
    exact .nil
  | cons e es ih =>
    obtain ⟨y, he, hes, rfl⟩ := h.of_cons
    obtain ⟨v, hv, value⟩ := denotes_splitCoeff he.denotes
    by_cases h0 : (splitCoeff e).1 = 0
    · rw [value, h0, Rat.cast_zero, zero_mul, zero_add, List.filterMap_cons_none (by simp [h0])]
      exact ih hes
    · rw [value, List.filterMap_cons_some
        (b := (sortExprs (factors (splitCoeff e).2), (splitCoeff e).1)) (by simp [h0])]
      exact .cons _ ((denotes_factors hv).perm (perm_sortExprs _)) (ih hes)

private theorem denotes_ofTally {t : Tally (List Expr)} (h : DenotesLikeTerms ρ t x) :
    Denotes ρ (ofTally t) x := by
  obtain ⟨y, z, hy, hz, rfl⟩ := h.split
  simp only [ofTally, List.partition_eq_filter_filter]
  apply denotes_sum
  apply DenotesSum.append
  · simpa [Function.comp_def] using hy
  · simpa using hz

variable {a b : Expr}

theorem denotes_add (ha : Denotes ρ a x) (hb : Denotes ρ b y) : Denotes ρ (add a b) (x + y) :=
  denotes_ofTally (denotes_collect ((denotes_terms ha).append (denotes_terms hb)))

theorem denotes_sub (ha : Denotes ρ a x) (hb : Denotes ρ b y) : Denotes ρ (sub a b) (x - y) := by
  rw [sub_eq_add_neg]
  exact denotes_add ha (denotes_neg hb)

private theorem denotes_mulPlain (ha : Denotes ρ a x) (hb : Denotes ρ b y) :
    Denotes ρ (mulPlain a b) (x * y) := by
  rw [mulPlain.eq_def]
  split
  · rw [← ha.value, ← hb.value, evalAt, evalAt, ← Rat.cast_mul]
    exact Expr.denotes_const _
  · simp only [Bool.or_eq_true, Expr.isZero_iff, Expr.isOne_iff]
    split_ifs with h0 h1 h1'
    · rcases h0 with rfl | rfl
      · rw [← ha.value, evalAt, Rat.cast_zero, zero_mul]
        exact Expr.denotes_zero
      · rw [← hb.value, evalAt, Rat.cast_zero, mul_zero]
        exact Expr.denotes_zero
    · rw [← ha.value, h1, evalAt, Rat.cast_one, one_mul]
      exact hb
    · rw [← hb.value, h1', evalAt, Rat.cast_one, mul_one]
      exact ha
    · obtain ⟨z, hz, value⟩ := denotes_splitCoeff (Expr.denotes_mul.mpr ⟨_, _, ha, hb, rfl⟩)
      rw [value]
      exact denotes_scale _ hz

private theorem denotes_mulRight (ha : Denotes ρ a x) (hb : Denotes ρ b y) :
    Denotes ρ (mulRight a b) (x * y) := by
  induction b generalizing y with
  | add b c ihb ihc =>
    obtain ⟨p, q, hp, hq, rfl⟩ := Expr.denotes_add.mp hb
    rw [mulRight]
    split
    · rw [mul_add]
      exact denotes_add (ihb hp) (ihc hq)
    · exact Expr.denotes_mul.mpr ⟨_, _, ha, hb, rfl⟩
  | sub b c ihb ihc =>
    obtain ⟨p, q, hp, hq, rfl⟩ := Expr.denotes_sub.mp hb
    rw [mulRight]
    split
    · rw [mul_sub]
      exact denotes_sub (ihb hp) (ihc hq)
    · exact Expr.denotes_mul.mpr ⟨_, _, ha, hb, rfl⟩
  | _ => exact denotes_mulPlain ha hb

/-- The product of two simplified expressions denotes what the plain node denotes, multiplied out or
not. -/
theorem denotes_mul (ha : Denotes ρ a x) (hb : Denotes ρ b y) : Denotes ρ (mul a b) (x * y) := by
  induction a generalizing x with
  | add a c iha ihc =>
    obtain ⟨p, q, hp, hq, rfl⟩ := Expr.denotes_add.mp ha
    rw [mul]
    split
    · rw [add_mul]
      exact denotes_add (iha hp) (ihc hq)
    · exact Expr.denotes_mul.mpr ⟨_, _, ha, hb, rfl⟩
  | sub a c iha ihc =>
    obtain ⟨p, q, hp, hq, rfl⟩ := Expr.denotes_sub.mp ha
    rw [mul]
    split
    · rw [sub_mul]
      exact denotes_sub (iha hp) (ihc hq)
    · exact Expr.denotes_mul.mpr ⟨_, _, ha, hb, rfl⟩
  | _ => exact denotes_mulRight ha hb

private theorem denotes_divPlain (ha : Denotes ρ a x) (hb : Denotes ρ b y) (h0 : y ≠ 0) :
    Denotes ρ (divPlain a b) (x / y) := by
  obtain ⟨v, hv, rfl⟩ := denotes_splitCoeff ha
  obtain ⟨w, hw, rfl⟩ := denotes_splitCoeff hb
  have hw0 : w ≠ 0 := right_ne_zero_of_mul h0
  rw [mul_div_mul_comm, ← Rat.cast_div]
  simp only [divPlain, Expr.isOne_iff]
  split_ifs with hc same hone
  · exact absurd (by rw [hc, Rat.cast_zero, zero_mul]) h0
  · rw [← hv.value, ← hw.value, same.1, div_self (hw.value ▸ hw0), mul_one]
    exact Expr.denotes_const _
  · rw [← hw.value, hone, evalAt, Rat.cast_one, div_one]
    exact denotes_mul (Expr.denotes_const _) hv
  · exact denotes_mul (Expr.denotes_const _) (Expr.denotes_div.mpr ⟨_, _, hv, hw, hw0, rfl⟩)

theorem denotes_div (ha : Denotes ρ a x) (hb : Denotes ρ b y) (h0 : y ≠ 0) :
    Denotes ρ (div a b) (x / y) := by
  rw [div.eq_def]
  split
  · split
    · exact Expr.denotes_div.mpr ⟨_, _, ha, hb, h0, rfl⟩
    · rw [← ha.value, ← hb.value, evalAt, evalAt, ← Rat.cast_div]
      exact Expr.denotes_const _
  · simp only [Expr.isZero_iff, Expr.isOne_iff]
    split_ifs with hzero hone
    · rw [← ha.value, hzero, evalAt, Rat.cast_zero, zero_div]
      exact Expr.denotes_zero
    · rw [← hb.value, hone, evalAt, Rat.cast_one, div_one]
      exact ha
    · exact denotes_divPlain ha hb h0

end Tutor.Simplify
