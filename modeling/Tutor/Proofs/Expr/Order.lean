import Mathlib.Order.Defs.LinearOrder
import Tutor.Expr.Basic

/-!
The order on expressions is total and tells them apart: it is the same from both sides, it is transitive,
and two expressions compare as equal only if they are one.
-/

set_option autoImplicit false
set_option relaxedAutoImplicit false

namespace Tutor.Expr

private theorem order_self (e : Expr) : order e e = .eq := by
  induction e with
  | var name => exact Std.ReflOrd.compare_self
  | const q => exact (compareOfLessAndEq_eq_eq (fun _ => Rat.le_refl) Rat.not_le).mpr rfl
  | add a b iha ihb | sub a b iha ihb | mul a b iha ihb | div a b iha ihb | pow a b iha ihb =>
    rw [order, iha, ihb, Ordering.eq_then]
  | neg a ih | sin a ih | cos a ih | tan a ih | exp a ih | log a ih => rw [order, ih]

private theorem eq_of_order_eq {e f : Expr} (h : order e f = .eq) : e = f := by
  induction e generalizing f with
  | var name =>
    cases f with
    | var other => rw [Std.LawfulEqOrd.eq_of_compare h]
    | _ => cases h
  | const q =>
    cases f with
    | const p => rw [(compareOfLessAndEq_eq_eq (fun _ => Rat.le_refl) Rat.not_le).mp h]
    | _ => cases h
  | add a b iha ihb | sub a b iha ihb | mul a b iha ihb | div a b iha ihb | pow a b iha ihb =>
    cases f <;> try cases h
    rename_i c d
    obtain ⟨hc, hd⟩ := Ordering.then_eq_eq.mp h
    rw [iha hc, ihb hd]
  | neg a ih | sin a ih | cos a ih | tan a ih | exp a ih | log a ih =>
    cases f <;> try cases h
    rename_i c
    rw [ih h]

instance : Std.LawfulEqOrd Expr where
  compare_self := order_self _
  eq_of_compare := eq_of_order_eq

private theorem order_swap (e f : Expr) : order e f = (order f e).swap := by
  induction e generalizing f with
  | var name =>
    cases f with
    | var other => exact Std.OrientedOrd.eq_swap
    | _ => rfl
  | const q =>
    cases f with
    | const p => exact compareOfLessAndEq_eq_swap Rat.le_antisymm (fun _ _ => Rat.le_total) Rat.not_le
    | _ => rfl
  | add a b iha ihb | sub a b iha ihb | mul a b iha ihb | div a b iha ihb | pow a b iha ihb =>
    cases f <;> try rfl
    rename_i c d
    rw [order, order, iha, ihb, Ordering.swap_then]
  | neg a ih | sin a ih | cos a ih | tan a ih | exp a ih | log a ih =>
    cases f <;> try rfl
    rename_i c
    rw [order, order, ih]

private theorem eq_of_isLE {e f : Expr} (h : (order e f).isLE) (h' : (order f e).isLE) : e = f := by
  rw [order_swap, Ordering.isLE_swap] at h'
  exact eq_of_order_eq (Ordering.eq_eq_of_isLE_of_isGE h h')

/-- Parts are compared from left to right, so an order of two parts each is transitive if both orders of
the parts are. -/
private theorem isLE_trans_then {a b c d x y : Expr}
    (left : (order a c).isLE → (order c x).isLE → (order a x).isLE)
    (right : (order b d).isLE → (order d y).isLE → (order b y).isLE)
    (h : ((order a c).then (order b d)).isLE) (h' : ((order c x).then (order d y)).isLE) :
    ((order a x).then (order b y)).isLE := by
  rw [Ordering.isLE_then_iff_and] at h h' ⊢
  have first := left h.1 h'.1
  refine ⟨first, ?_⟩
  by_cases same : a = x
  · subst same
    obtain rfl := eq_of_isLE h.1 h'.1
    rw [order_self] at h h'
    exact .inr (right (h.2.resolve_left (by decide)) (h'.2.resolve_left (by decide)))
  · refine .inl ((Ordering.isLE_iff_eq_lt_or_eq_eq.mp first).resolve_right fun equal => ?_)
    exact same (eq_of_order_eq equal)

private theorem order_of_kind_ne {e f : Expr} (h : e.kind ≠ f.kind) : order e f = compare e.kind f.kind := by
  cases e <;> cases f <;> first | rfl | exact absurd rfl h

private theorem kind_le_of_isLE {e f : Expr} (h : (order e f).isLE) : e.kind ≤ f.kind := by
  by_cases same : e.kind = f.kind
  · exact Nat.le_of_eq same
  · rwa [order_of_kind_ne same, Nat.isLE_compare] at h

private theorem isLE_trans_of_kind {e f g : Expr} (h : (order e f).isLE) (h' : (order f g).isLE)
    (same : e.kind = f.kind → e.kind = g.kind → (order e g).isLE) : (order e g).isLE := by
  have le := kind_le_of_isLE h
  have le' := kind_le_of_isLE h'
  by_cases last : e.kind = g.kind
  · exact same (by omega) last
  · rw [order_of_kind_ne last, Nat.isLE_compare]
    omega

private theorem order_isLE_trans {e f g : Expr} (h : (order e f).isLE) (h' : (order f g).isLE) :
    (order e g).isLE := by
  induction e generalizing f g with
  | var name =>
    refine isLE_trans_of_kind h h' fun middle last => ?_
    cases f <;> cases middle
    cases g <;> cases last
    exact Std.TransOrd.isLE_trans h h'
  | const q =>
    refine isLE_trans_of_kind h h' fun middle last => ?_
    cases f <;> cases middle
    cases g <;> cases last
    have isLE_iff {p q : Rat} : (compareOfLessAndEq p q).isLE ↔ p ≤ q :=
      isLE_compareOfLessAndEq Rat.le_antisymm Rat.not_le fun _ _ => Rat.le_total
    exact isLE_iff.mpr (Rat.le_trans (isLE_iff.mp h) (isLE_iff.mp h'))
  | add a b iha ihb | sub a b iha ihb | mul a b iha ihb | div a b iha ihb | pow a b iha ihb =>
    refine isLE_trans_of_kind h h' fun middle last => ?_
    cases f <;> cases middle
    cases g <;> cases last
    exact isLE_trans_then iha ihb h h'
  | neg a ih | sin a ih | cos a ih | tan a ih | exp a ih | log a ih =>
    refine isLE_trans_of_kind h h' fun middle last => ?_
    cases f <;> cases middle
    cases g <;> cases last
    exact ih h h'

instance : Std.TransOrd Expr where
  eq_swap := order_swap _ _
  isLE_trans := order_isLE_trans

end Tutor.Expr
