import Mathlib.Data.List.Induction
import Mathlib.Data.List.Pairwise
import Tutor.Proofs.Simplify.Hereditary

/-!
The order of the terms does not matter. Booking amounts commutes, so a tally depends only on which entries
are booked, and not on when; and since a tally is kept in the order of its keys, its entries may be handed
over in any order and sorted again: booking them once more and sorting them by their keys both give the
tally back. Hence a simplified sum is told by the terms that are added, however they
are arranged and grouped.
-/

set_option autoImplicit false
set_option relaxedAutoImplicit false

namespace Tutor

universe u

namespace Tally

variable {κ : Type u} [Ord κ] {k l m : κ} {p q r : Rat} {t : Tally κ}

/-! ### Booking -/

private theorem book_of_lt (h : compare k m = .lt) : book k p ((m, r) :: t) = (k, p) :: (m, r) :: t := by
  simp only [book, h]

private theorem book_of_eq (h : compare k m = .eq) : book k p ((m, r) :: t) = (m, r + p) :: t := by
  simp only [book, h]

private theorem book_of_gt (h : compare k m = .gt) : book k p ((m, r) :: t) = (m, r) :: book k p t := by
  simp only [book, h]

private theorem book_below (h : ∀ entry ∈ t, compare k entry.1 = .lt) : book k p t = (k, p) :: t := by
  cases t with
  | nil => rfl
  | cons entry rest => exact book_of_lt (h entry List.mem_cons_self)

private theorem ofList_concat (entries : List (κ × Rat)) (entry : κ × Rat) :
    ofList (entries ++ [entry]) = (ofList entries).book entry.1 entry.2 := by
  rw [ofList, List.foldl_append]
  rfl

private theorem book_book_self [Std.LawfulEqOrd κ] (k : κ) (p q : Rat) (t : Tally κ) :
    (t.book k p).book k q = t.book k (p + q) := by
  induction t with
  | nil => exact book_of_eq Std.ReflOrd.compare_self
  | cons entry rest ih =>
    obtain ⟨m, r⟩ := entry
    cases h : compare k m with
    | lt => rw [book_of_lt h, book_of_lt h, book_of_eq Std.ReflOrd.compare_self]
    | eq => rw [book_of_eq h, book_of_eq h, book_of_eq h, Rat.add_assoc]
    | gt => rw [book_of_gt h, book_of_gt h, book_of_gt h, ih]

variable [Std.TransOrd κ] [Std.LawfulEqOrd κ]

private theorem book_comm_of_lt (h : compare k l = .lt) (t : Tally κ) :
    (t.book k p).book l q = (t.book l q).book k p := by
  have behind : compare l k = .gt := Std.OrientedCmp.gt_of_lt h
  induction t with
  | nil => rw [book, book, book_of_gt behind, book_of_lt h, book]
  | cons entry rest ih =>
    obtain ⟨m, r⟩ := entry
    -- The smaller key stands first, so the place of the larger one matters only where both are behind.
    cases hk : compare k m with
    | lt =>
      rw [book_of_lt hk, book_of_gt behind]
      cases hl : compare l m with
      | lt => rw [book_of_lt hl, book_of_lt h]
      | eq => rw [book_of_eq hl, book_of_lt hk]
      | gt => rw [book_of_gt hl, book_of_lt hk]
    | eq =>
      obtain rfl := Std.LawfulEqOrd.eq_of_compare hk
      rw [book_of_eq hk, book_of_gt behind, book_of_gt behind, book_of_eq hk]
    | gt =>
      have hl : compare l m = .gt := Std.TransCmp.gt_trans behind hk
      rw [book_of_gt hk, book_of_gt hl, book_of_gt hl, book_of_gt hk, ih]

private theorem book_comm (k l : κ) (p q : Rat) (t : Tally κ) :
    (t.book k p).book l q = (t.book l q).book k p := by
  cases h : compare k l with
  | lt => exact book_comm_of_lt h t
  | eq =>
    obtain rfl := Std.LawfulEqOrd.eq_of_compare h
    rw [book_book_self, book_book_self, Rat.add_comm]
  | gt => exact (book_comm_of_lt (Std.OrientedCmp.lt_of_gt h) t).symm

/-! ### Lists of entries -/

private theorem ofList_perm {entries others : List (κ × Rat)} (h : entries.Perm others) :
    ofList entries = ofList others :=
  h.foldl_eq' (fun x _ y _ t => book_comm x.1 y.1 x.2 y.2 t) []

def Increasing (t : Tally κ) : Prop := t.Pairwise fun x y => compare x.1 y.1 = .lt

theorem Increasing.book (h : t.Increasing) (k : κ) (p : Rat) : (t.book k p).Increasing := by
  induction t with
  | nil => exact List.pairwise_singleton _ _
  | cons entry rest ih =>
    obtain ⟨m, r⟩ := entry
    obtain ⟨first, others⟩ := List.pairwise_cons.mp h
    cases hk : compare k m with
    | lt =>
      rw [book_of_lt hk]
      refine List.pairwise_cons.mpr ⟨List.forall_mem_cons.mpr ⟨hk, fun x hx => ?_⟩, h⟩
      exact Std.TransCmp.lt_trans hk (first x hx)
    | eq =>
      rw [book_of_eq hk]
      exact List.pairwise_cons.mpr ⟨first, others⟩
    | gt =>
      rw [book_of_gt hk]
      refine List.pairwise_cons.mpr ⟨?_, ih others⟩
      exact forall_mem_book (R := fun key _ => compare m key = .lt) (fun hm _ => hm) first
        (Std.OrientedCmp.lt_of_gt hk)

private theorem increasing_ofList (entries : List (κ × Rat)) : (ofList entries).Increasing := by
  induction entries using List.reverseRecOn with
  | nil => exact List.Pairwise.nil
  | append_singleton entries entry ih =>
    rw [ofList_concat]
    exact ih.book entry.1 entry.2

private theorem ofList_of_increasing (h : t.Increasing) : ofList t = t := by
  induction t with
  | nil => rfl
  | cons entry rest ih =>
    obtain ⟨first, others⟩ := List.pairwise_cons.mp h
    rw [ofList_perm (List.perm_append_singleton entry rest).symm, ofList_concat, ih others,
      book_below first]

private theorem ofList_of_perm {entries others : List (κ × Rat)} (h : others.Perm (ofList entries)) :
    ofList others = ofList entries := by
  rw [ofList_perm h, ofList_of_increasing (increasing_ofList entries)]

/-- The entries of a tally, sorted by their keys, are the tally again, in whatever order they come. -/
theorem mergeSort_of_perm {entries others : List (κ × Rat)} (h : others.Perm (ofList entries)) :
    others.mergeSort (fun x y => (compare x.1 y.1).isLE) = ofList entries := by
  have increasing : (ofList entries).Pairwise fun x y => compare x.1 y.1 = .lt := increasing_ofList entries
  have total (x y : κ × Rat) : ((compare x.1 y.1).isLE || (compare y.1 x.1).isLE) = true := by
    rw [Std.OrientedOrd.eq_swap (a := y.1)]
    cases compare x.1 y.1 <;> rfl
  have sorted := List.pairwise_mergeSort (fun x y z => Std.TransCmp.isLE_trans) total others
  refine List.Perm.eq_of_pairwise (fun x y hx hy hxy hyx => ?_) sorted
    (increasing.imp fun hlt => by rw [hlt]; rfl) ((List.mergeSort_perm others _).trans h)
  have key : x.1 = y.1 := Std.LawfulEqOrd.eq_of_compare (Std.OrientedCmp.isLE_antisymm hxy hyx)
  have different : (ofList entries).Pairwise fun x y => x.1 ≠ y.1 := by
    refine increasing.imp fun {x y} hlt same => ?_
    rw [same, Std.ReflOrd.compare_self] at hlt
    cases hlt
  have hx := ((List.mergeSort_perm others _).trans h).subset hx
  by_contra distinct
  have : Std.Symm fun x y : κ × Rat => x.1 ≠ y.1 := ⟨fun _ _ => Ne.symm⟩
  exact different.forall hx hy distinct key

end Tally

namespace Simplify

private theorem collect_perm {es fs : List Expr} (h : es.Perm fs) : collect es = collect fs :=
  Tally.ofList_perm (h.filterMap _)

/-- A simplified sum does not depend on how its terms are arranged. The operands may be exchanged; any two
other operands that have the same terms between them, in any order, give the same tree; and the like terms
that were collected may be handed over in any order and sorted again. -/
theorem add_rearranged (x y : Expr) :
    add x y = add y x ∧
      (∀ x' y' : Expr, (terms x ++ terms y).Perm (terms x' ++ terms y') → add x y = add x' y') ∧
      ∀ entries : List (List Expr × Rat), entries.Perm (collect (terms x ++ terms y)) →
        ofTally (Tally.ofList entries) = add x y := by
  have same_terms (x' y' : Expr) (h : (terms x ++ terms y).Perm (terms x' ++ terms y')) :
      add x y = add x' y' := congrArg ofTally (collect_perm h)
  refine ⟨same_terms y x List.perm_append_comm, same_terms, fun entries h => ?_⟩
  exact congrArg ofTally (Tally.ofList_of_perm h)

/-- Like terms with their factors exchanged, on both sides of a difference: `2 * x * y` and
`3 - (y * x - z)` have the same terms between them as `3 - y * x` and `z + 2 * x * y`. -/
theorem add_rearranged_like_terms :
    let xy : Expr := .mul (.const 2) (.mul (.var "x") (.var "y"))
    let yx : Expr := .mul (.var "y") (.var "x")
    let left : Expr := .sub (.const 3) (.sub yx (.var "z"))
    (terms xy ++ terms left).Perm (terms (.sub (.const 3) yx) ++ terms (.add (.var "z") xy)) ∧
      add xy left = add (.sub (.const 3) yx) (.add (.var "z") xy) ∧
      [([], 3), ([.var "z"], 1), ([.var "x", .var "y"], 1)].Perm (collect (terms xy ++ terms left)) ∧
      ofTally (Tally.ofList [([], 3), ([.var "z"], 1), ([.var "x", .var "y"], 1)]) = add xy left := by
  intro xy yx left
  obtain ⟨-, same_terms, any_order⟩ := add_rearranged xy left
  have perm : (terms xy ++ terms left).Perm
      (terms (.sub (.const 3) yx) ++ terms (.add (.var "z") xy)) := by decide +kernel
  have entries : [([], 3), ([.var "z"], 1), ([.var "x", .var "y"], 1)].Perm
      (collect (terms xy ++ terms left)) := by decide +kernel
  exact ⟨perm, same_terms _ _ perm, entries, any_order _ entries⟩

end Simplify

end Tutor
