import Tutor.Proofs.Expr.Order
import Tutor.Simplify.Pass

/-!
Properties that simplification keeps. What holds of constants, and of a node of arithmetic exactly if it
holds of its parts, holds of every expression that the entry points build from expressions of which it
holds: they take sums and products apart and put them together again. The exponents that stand in the
result are sums and products of those in the operands.
-/

set_option autoImplicit false
set_option relaxedAutoImplicit false

namespace Tutor

universe u

namespace Tally

variable {κ : Type u} [Ord κ] [Std.LawfulEqOrd κ] {R : κ → Rat → Prop} {t : Tally κ} {key : κ}
  {amount : Rat}

theorem forall_mem_book (hadd : ∀ {k p q}, R k p → R k q → R k (p + q)) (ht : ∀ p ∈ t, R p.1 p.2)
    (h : R key amount) : ∀ p ∈ t.book key amount, R p.1 p.2 := by
  induction t with
  | nil => simpa [book] using h
  | cons entry rest ih =>
    obtain ⟨k, q⟩ := entry
    rw [List.forall_mem_cons] at ht
    simp only [book]
    split
    · exact List.forall_mem_cons.mpr ⟨h, List.forall_mem_cons.mpr ht⟩
    · rename_i same
      obtain rfl := Std.LawfulEqOrd.eq_of_compare same
      exact List.forall_mem_cons.mpr ⟨hadd ht.1 h, ht.2⟩
    · exact List.forall_mem_cons.mpr ⟨ht.1, ih ht.2⟩

theorem forall_mem_ofList {entries : List (κ × Rat)}
    (hadd : ∀ {k p q}, R k p → R k q → R k (p + q)) (h : ∀ p ∈ entries, R p.1 p.2) :
    ∀ p ∈ ofList entries, R p.1 p.2 := by
  have from_acc (acc : Tally κ) (hacc : ∀ p ∈ acc, R p.1 p.2) :
      ∀ p ∈ entries.foldl (fun tally entry => tally.book entry.1 entry.2) acc, R p.1 p.2 := by
    induction entries generalizing acc with
    | nil => exact hacc
    | cons entry rest ih =>
      rw [List.forall_mem_cons] at h
      exact ih h.2 _ (forall_mem_book hadd hacc h.1)
  exact from_acc [] (by simp)

end Tally

namespace Simplify

variable {P : Expr → Prop} {E : Rat → Prop} {x y e : Expr} {es : List Expr} {q : Rat}

theorem foldl_closed {node : Expr → Expr → Expr} (hnode : ∀ {a b}, P a → P b → P (node a b)) (he : P e)
    (hes : ∀ f ∈ es, P f) : P (es.foldl node e) := by
  induction es generalizing e with
  | nil => exact he
  | cons f rest ih =>
    rw [List.forall_mem_cons] at hes
    exact ih (hnode he hes.1) hes.2

/-- A property of expressions that constants have, and a node of arithmetic exactly if its parts have it.
Constant exponents have a property of their own, which sums, products and numerators keep. -/
structure Hereditary (P : Expr → Prop) (E : Rat → Prop) : Prop where
  const (q : Rat) : P (.const q)
  add_iff {a b : Expr} : P (.add a b) ↔ P a ∧ P b
  sub_iff {a b : Expr} : P (.sub a b) ↔ P a ∧ P b
  mul_iff {a b : Expr} : P (.mul a b) ↔ P a ∧ P b
  div_iff {a b : Expr} : P (.div a b) ↔ P a ∧ P b
  neg_iff {a : Expr} : P (.neg a) ↔ P a
  pow_iff {a : Expr} {q : Rat} : P (.pow a (.const q)) ↔ P a ∧ E q
  exponent_one : E 1
  exponent_add {p q : Rat} : E p → E q → E (p + q)
  exponent_mul {p q : Rat} : E p → E q → E (p * q)
  exponent_num {q : Rat} : E q → E q.num

namespace Hereditary

variable (hP : Hereditary P E)

include hP

theorem zero : P .zero := hP.const 0

theorem one : P .one := hP.const 1

/-! ### Powers -/

theorem constPow (b : Rat) (hq : E q) : P (constPow b q) := by
  have kept : P (.pow (.const b) (.const q)) := hP.pow_iff.mpr ⟨hP.const b, hq⟩
  simp only [Simplify.constPow]
  split_ifs
  · split
    · exact hP.const _
    · exact kept
  · split
    · split
      · exact hP.const _
      · exact hP.pow_iff.mpr ⟨hP.const _, hP.exponent_num hq⟩
    · exact kept
  · exact kept

theorem raise (hx : P x) (hq : E q) : P (raise x q) := by
  fun_induction Simplify.raise x q with
  | case1 x => exact hP.one
  | case2 x _ => exact hx
  | case3 q _ _ b => exact hP.constPow b hq
  | case4 q _ _ base k _ ih =>
    obtain ⟨hbase, hk⟩ := hP.pow_iff.mp hx
    exact ih hbase (hP.exponent_mul hk hq)
  | case5 q _ _ base k _ => exact hP.pow_iff.mpr ⟨hx, hq⟩
  | case6 x q _ _ _ _ => exact hP.pow_iff.mpr ⟨hx, hq⟩

theorem powerOf (hx : P x) : P (powerOf x).1 ∧ E (powerOf x).2 := by
  rw [powerOf.eq_def]
  split
  · exact hP.pow_iff.mp hx
  · exact ⟨hx, hP.exponent_one⟩

/-! ### Products without sums -/

theorem factors (hx : P x) : ∀ f ∈ factors x, P f := by
  fun_induction Simplify.factors x with
  | case1 a b iha ihb =>
    obtain ⟨ha, hb⟩ := hP.mul_iff.mp hx
    exact List.forall_mem_append.mpr ⟨iha ha, ihb hb⟩
  | case2 e _ _ => simp
  | case3 e _ _ => simpa using hx

theorem product (hes : ∀ f ∈ es, P f) : P (product es) := by
  cases es with
  | nil => exact hP.one
  | cons e rest =>
    rw [List.forall_mem_cons] at hes
    exact foldl_closed (fun ha hb => hP.mul_iff.mpr ⟨ha, hb⟩) hes.1 hes.2

theorem mergeFactors (hx : P x) (hy : P y) : P (mergeFactors x y).2 := by
  have powers : ∀ p ∈ (Simplify.factors x ++ Simplify.factors y).map Simplify.powerOf,
      P p.1 ∧ E p.2 := by
    rw [List.forall_mem_map]
    exact fun f hf => hP.powerOf ((List.forall_mem_append.mpr ⟨hP.factors hx, hP.factors hy⟩) f hf)
  have merged := Tally.forall_mem_ofList (R := fun base q => P base ∧ E q)
    (fun hp hq => ⟨hp.1, hP.exponent_add hp.2 hq.2⟩) powers
  refine hP.product fun f hf => ?_
  rw [(perm_sortExprs _).mem_iff, List.mem_filter, List.mem_map] at hf
  obtain ⟨⟨⟨base, q⟩, hentry, rfl⟩, -⟩ := hf
  obtain ⟨hbase, hq⟩ := merged _ hentry
  exact hP.raise hbase hq

theorem splitCoeff (he : P e) : P (splitCoeff e).2 := by
  fun_induction Simplify.splitCoeff e with
  | case1 c => exact hP.one
  | case2 a ih => exact ih (hP.neg_iff.mp he)
  | case3 a b ca ba hsa cb bb hsb cm base hm iha ihb =>
    obtain ⟨ha, hb⟩ := hP.mul_iff.mp he
    have merged := hP.mergeFactors (iha ha) (ihb hb)
    rwa [hsa, hsb, hm] at merged
  | case4 e _ _ _ => exact he

theorem scaleWith {c : Rat} (he : P e) (hx : P x) : P (scaleWith c e x) := by
  simp only [Simplify.scaleWith]
  split_ifs
  · exact hP.zero
  · exact hP.const c
  · exact he
  · exact hx
  · exact hP.mul_iff.mpr ⟨hP.const c, he⟩

theorem neg (he : P e) : P (neg e) := by
  fun_induction Simplify.neg e with
  | case1 q => exact hP.const _
  | case2 a => exact hP.neg_iff.mp he
  | case3 c b ih =>
    obtain ⟨-, hb⟩ := hP.mul_iff.mp he
    exact hP.scaleWith hb (ih hb)
  | case4 e _ _ _ => exact hP.neg_iff.mpr he

theorem scale (c : Rat) (he : P e) : P (scale c e) := hP.scaleWith he (hP.neg he)

/-! ### Sums -/

theorem map_neg (hes : ∀ t ∈ es, P t) : ∀ t ∈ es.map Simplify.neg, P t :=
  List.forall_mem_map.mpr fun t ht => hP.neg (hes t ht)

theorem terms (he : P e) : ∀ t ∈ terms e, P t := by
  fun_induction Simplify.terms e with
  | case1 a b iha ihb =>
    obtain ⟨ha, hb⟩ := hP.add_iff.mp he
    exact List.forall_mem_append.mpr ⟨iha ha, ihb hb⟩
  | case2 a b iha ihb =>
    obtain ⟨ha, hb⟩ := hP.sub_iff.mp he
    exact List.forall_mem_append.mpr ⟨iha ha, hP.map_neg (ihb hb)⟩
  | case3 a ih => exact hP.map_neg (ih (hP.neg_iff.mp he))
  | case4 e _ _ _ => simpa using he

theorem collect (hes : ∀ t ∈ es, P t) : ∀ p ∈ collect es, ∀ f ∈ p.1, P f := by
  refine Tally.forall_mem_ofList (R := fun key _ => ∀ f ∈ key, P f) (fun hp _ => hp) fun p hp => ?_
  rw [List.mem_filterMap] at hp
  obtain ⟨t, ht, hp⟩ := hp
  simp only [Option.ite_none_left_eq_some, Option.some.injEq] at hp
  obtain ⟨-, rfl⟩ := hp
  intro f hf
  exact hP.factors (hP.splitCoeff (hes t ht)) f ((perm_sortExprs _).mem_iff.mp hf)

theorem sum (hes : ∀ t ∈ es, P t) : P (sum es) := by
  cases es with
  | nil => exact hP.zero
  | cons e rest =>
    rw [List.forall_mem_cons] at hes
    exact foldl_closed (fun ha hb => hP.add_iff.mpr ⟨ha, hb⟩) hes.1 hes.2

theorem ofTally {t : Tally (List Expr)} (ht : ∀ p ∈ t, ∀ f ∈ p.1, P f) : P (ofTally t) := by
  simp only [Simplify.ofTally, List.partition_eq_filter_filter]
  refine hP.sum (List.forall_mem_append.mpr ⟨?_, ?_⟩)
  · rw [List.forall_mem_map]
    intro p hp
    exact hP.scale p.2 (hP.product (ht p (List.mem_filter.mp (List.mem_filter.mp hp).1).1))
  · rw [List.forall_mem_map]
    exact fun p _ => hP.const p.2

theorem add (hx : P x) (hy : P y) : P (add x y) :=
  hP.ofTally (hP.collect (List.forall_mem_append.mpr ⟨hP.terms hx, hP.terms hy⟩))

theorem sub (hx : P x) (hy : P y) : P (sub x y) := hP.add hx (hP.neg hy)

/-! ### Products and quotients -/

theorem mulPlain (hx : P x) (hy : P y) : P (mulPlain x y) := by
  rw [mulPlain.eq_def]
  split
  · exact hP.const _
  · split_ifs
    · exact hP.zero
    · exact hy
    · exact hx
    · exact hP.scale _ (hP.splitCoeff (hP.mul_iff.mpr ⟨hx, hy⟩))

theorem mulRight (hx : P x) (hy : P y) : P (mulRight x y) := by
  fun_induction Simplify.mulRight x y with
  | case1 a b _ iha ihb =>
    obtain ⟨ha, hb⟩ := hP.add_iff.mp hy
    exact hP.add (iha ha) (ihb hb)
  | case2 a b _ => exact hP.mul_iff.mpr ⟨hx, hy⟩
  | case3 a b _ iha ihb =>
    obtain ⟨ha, hb⟩ := hP.sub_iff.mp hy
    exact hP.sub (iha ha) (ihb hb)
  | case4 a b _ => exact hP.mul_iff.mpr ⟨hx, hy⟩
  | case5 y _ _ => exact hP.mulPlain hx hy

theorem mul (hx : P x) (hy : P y) : P (mul x y) := by
  fun_induction Simplify.mul x y with
  | case1 a b _ iha ihb =>
    obtain ⟨ha, hb⟩ := hP.add_iff.mp hx
    exact hP.add (iha ha) (ihb hb)
  | case2 a b _ => exact hP.mul_iff.mpr ⟨hx, hy⟩
  | case3 a b _ iha ihb =>
    obtain ⟨ha, hb⟩ := hP.sub_iff.mp hx
    exact hP.sub (iha ha) (ihb hb)
  | case4 a b _ => exact hP.mul_iff.mpr ⟨hx, hy⟩
  | case5 x _ _ => exact hP.mulRight hx hy

theorem div (hx : P x) (hy : P y) : P (div x y) := by
  have plain : P (divPlain x y) := by
    simp only [divPlain]
    split_ifs
    · exact hP.div_iff.mpr ⟨hx, hy⟩
    · exact hP.const _
    · exact hP.mul (hP.const _) (hP.splitCoeff hx)
    · exact hP.mul (hP.const _) (hP.div_iff.mpr ⟨hP.splitCoeff hx, hP.splitCoeff hy⟩)
  rw [div.eq_def]
  split
  · split_ifs
    · exact hP.div_iff.mpr ⟨hx, hy⟩
    · exact hP.const _
  · split_ifs
    · exact hP.zero
    · exact hx
    · exact plain

end Hereditary

end Simplify

end Tutor
