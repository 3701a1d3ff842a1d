import Mathlib.Algebra.Field.Rat
import Mathlib.Algebra.Order.BigOperators.Group.List
import Mathlib.Algebra.Order.Ring.Nat
import Tutor.Poly.OfExpr
import Tutor.Proofs.Simplify.Hereditary

/-!
Measures of expressions that add up over a product. Merging equal bases adds exponents, nested powers
multiply them, and a constant factor does not count. If a measure allows for this, what is left of a term
without its coefficient measures no more than the term, and so does what like terms are booked under.
-/

set_option autoImplicit false
set_option relaxedAutoImplicit false

namespace Tutor

universe u

namespace Tally

variable {κ : Type u} [Ord κ] [Std.LawfulEqOrd κ] {w : κ → Rat → Nat} {E : Rat → Prop}
  {t : Tally κ}

def weigh (w : κ → Rat → Nat) (t : Tally κ) : Nat := (t.map fun p => w p.1 p.2).sum

private theorem weigh_book_le (hw : ∀ {k p q}, E p → E q → w k (p + q) ≤ w k p + w k q)
    (ht : ∀ p ∈ t, E p.2) {key : κ} {amount : Rat} (h : E amount) :
    weigh w (t.book key amount) ≤ weigh w t + w key amount := by
  induction t with
  | nil => simp [book, weigh]
  | cons entry rest ih =>
    obtain ⟨k, q⟩ := entry
    rw [List.forall_mem_cons] at ht
    have rest_le := ih ht.2
    simp only [weigh, book] at rest_le ⊢
    split
    · simp only [List.map_cons, List.sum_cons]
      omega
    · rename_i same
      obtain rfl := Std.LawfulEqOrd.eq_of_compare same
      have merged : w key (q + amount) ≤ w key q + w key amount := hw ht.1 h
      simp only [List.map_cons, List.sum_cons]
      omega
    · simp only [List.map_cons, List.sum_cons]
      omega

private theorem weigh_ofList_le (hE : ∀ {p q}, E p → E q → E (p + q))
    (hw : ∀ {k p q}, E p → E q → w k (p + q) ≤ w k p + w k q) {entries : List (κ × Rat)}
    (h : ∀ p ∈ entries, E p.2) : weigh w (ofList entries) ≤ weigh w entries := by
  have from_acc (acc : Tally κ) (hacc : ∀ p ∈ acc, E p.2) :
      weigh w (entries.foldl (fun tally entry => tally.book entry.1 entry.2) acc) ≤
        weigh w acc + weigh w entries := by
    induction entries generalizing acc with
    | nil => simp [weigh]
    | cons entry rest ih =>
      rw [List.forall_mem_cons] at h
      have booked : weigh w (acc.book entry.1 entry.2) ≤ weigh w acc + w entry.1 entry.2 :=
        weigh_book_le hw hacc h.1
      have others := ih h.2 (acc.book entry.1 entry.2)
        (forall_mem_book (R := fun _ q => E q) hE hacc h.1)
      simp only [weigh, List.map_cons, List.sum_cons, List.foldl_cons] at booked others ⊢
      omega
  simpa [weigh, ofList] using from_acc [] (by simp)

end Tally

namespace Expr

variable {e : Expr}

@[simp]
theorem signedInteger?_intCast (k : Int) : (Expr.const k).signedInteger? = some k := by
  simp [signedInteger?, signedConst?]

/-- Built from one variable and constants by arithmetic, with integers as exponents. -/
def IsRationalIn (v : String) : Expr → Prop
  | .var name => name = v
  | .const _ => True
  | .add a b | .sub a b | .mul a b | .div a b => a.IsRationalIn v ∧ b.IsRationalIn v
  | .pow a b => a.IsRationalIn v ∧ ∃ k : Int, b = .const k
  | .neg a => a.IsRationalIn v
  | .sin _ | .cos _ | .tan _ | .exp _ | .log _ => False

theorem hereditary_isRationalIn (v : String) :
    Simplify.Hereditary (IsRationalIn v) fun q => ∃ k : Int, q = k where
  const _ := trivial
  add_iff := Iff.rfl
  sub_iff := Iff.rfl
  mul_iff := Iff.rfl
  div_iff := Iff.rfl
  neg_iff := Iff.rfl
  pow_iff := and_congr_right' (by simp only [const.injEq])
  exponent_one := ⟨1, rfl⟩
  exponent_add := by
    rintro _ _ ⟨j, rfl⟩ ⟨k, rfl⟩
    exact ⟨j + k, by push_cast; rfl⟩
  exponent_mul := by
    rintro _ _ ⟨j, rfl⟩ ⟨k, rfl⟩
    exact ⟨j * k, by push_cast; rfl⟩
  exponent_num _ := ⟨_, rfl⟩

theorem isRationalIn_simplify {v : String} (he : e.IsRationalIn v) : e.simplify.IsRationalIn v := by
  have closed := hereditary_isRationalIn v
  induction e with
  | var name => exact he
  | const q => exact he
  | add a b iha ihb => exact closed.add (iha he.1) (ihb he.2)
  | sub a b iha ihb => exact closed.sub (iha he.1) (ihb he.2)
  | mul a b iha ihb => exact closed.mul (iha he.1) (ihb he.2)
  | div a b iha ihb => exact closed.div (iha he.1) (ihb he.2)
  | pow a b iha _ =>
    obtain ⟨ha, k, rfl⟩ := he
    exact closed.raise (iha ha) ⟨k, rfl⟩
  | neg a ih => exact closed.neg (ih he)
  | sin a | cos a | tan a | exp a | log a => exact he.elim

end Expr

namespace Simplify

open Tutor.Expr (IsRationalIn hereditary_isRationalIn)

/-- A measure of the expressions that are rational in a variable: of an expression as a whole, of the
expression without its constant factors, and of a base with an exponent before they are put together. -/
structure Measure (v : String) where
  whole : Expr → Nat
  rest : Expr → Nat
  power : Expr → Rat → Nat
  whole_mul (a b : Expr) : whole (.mul a b) = whole a + whole b
  rest_mul (a b : Expr) : rest (.mul a b) = rest a + rest b
  rest_neg (a : Expr) : rest (.neg a) = rest a
  /-- An expression that is no constant, no product and has no sign has no constant factor. -/
  whole_eq_rest (e : Expr) : (∀ c, e ≠ .const c) → (∀ a, e ≠ .neg a) → (∀ a b, e ≠ .mul a b) →
    whole e = rest e
  power_add_le (x : Expr) (j k : Int) : power x ((j : Rat) + k) ≤ power x j + power x k
  whole_raise_le {x : Expr} (hx : x.IsRationalIn v) (k : Int) : whole (raise x k) ≤ power x k
  power_powerOf_le {x : Expr} (hx : x.IsRationalIn v) : power (powerOf x).1 (powerOf x).2 ≤ whole x

namespace Measure

variable {v : String} (m : Measure v) {x y e : Expr} {es : List Expr} {n : Nat}

def total (es : List Expr) : Nat := (es.map m.whole).sum

private theorem total_cons (e : Expr) (es : List Expr) : m.total (e :: es) = m.whole e + m.total es := by
  rw [total, List.map_cons, List.sum_cons, total]

private theorem total_append (es fs : List Expr) : m.total (es ++ fs) = m.total es + m.total fs := by
  rw [total, List.map_append, List.sum_append, total, total]

private theorem total_sortExprs (es : List Expr) : m.total (sortExprs es) = m.total es :=
  ((perm_sortExprs es).map _).sum_eq

private theorem total_filter_le (p : Expr → Bool) (es : List Expr) :
    m.total (es.filter p) ≤ m.total es :=
  (List.filter_sublist.map _).sum_le_sum fun _ _ => Nat.zero_le _

private theorem total_factors_le (e : Expr) : m.total (factors e) ≤ m.whole e := by
  fun_induction factors e with
  | case1 a b iha ihb =>
    rw [total_append, m.whole_mul]
    exact Nat.add_le_add iha ihb
  | case2 e _ _ => exact Nat.zero_le _
  | case3 e _ _ => simp [total]

theorem whole_product_cons (e : Expr) (es : List Expr) :
    m.whole (product (e :: es)) = m.total (e :: es) := by
  have joined (e : Expr) : m.whole (es.foldl .mul e) = m.whole e + m.total es := by
    induction es generalizing e with
    | nil => rfl
    | cons f rest ih => rw [List.foldl_cons, ih, m.whole_mul, total_cons, Nat.add_assoc]
  rw [total_cons]
  exact joined e

private theorem total_factors_product_le (es : List Expr) :
    m.total (factors (product es)) ≤ m.total es := by
  cases es with
  | nil => exact le_rfl
  | cons e rest => exact (m.whole_product_cons e rest) ▸ m.total_factors_le _

private theorem exists_mergeFactors (hx : x.IsRationalIn v) (hy : y.IsRationalIn v) :
    ∃ es, (mergeFactors x y).2 = product es ∧ m.total es ≤ m.total (factors x) + m.total (factors y) := by
  have closed := hereditary_isRationalIn v
  have rational : ∀ f ∈ factors x ++ factors y, f.IsRationalIn v :=
    List.forall_mem_append.mpr ⟨closed.factors hx, closed.factors hy⟩
  have powers : ∀ p ∈ (factors x ++ factors y).map powerOf, p.1.IsRationalIn v ∧ ∃ k : Int, p.2 = k :=
    List.forall_mem_map.mpr fun f hf => closed.powerOf (rational f hf)
  have merged := Tally.forall_mem_ofList (R := fun base q => IsRationalIn v base ∧ ∃ k : Int, q = k)
    (fun hp hq => ⟨hp.1, closed.exponent_add hp.2 hq.2⟩) powers
  have subadditive {base : Expr} {p q : Rat} (hp : ∃ k : Int, p = k) (hq : ∃ k : Int, q = k) :
      m.power base (p + q) ≤ m.power base p + m.power base q := by
    obtain ⟨j, rfl⟩ := hp
    obtain ⟨k, rfl⟩ := hq
    exact m.power_add_le base j k
  have tally := Tally.weigh_ofList_le (w := m.power) closed.exponent_add subadditive
    fun p hp => (powers p hp).2
  have raised {base : Expr} {q : Rat} (h : base.IsRationalIn v ∧ ∃ k : Int, q = k) :
      m.whole (raise base q) ≤ m.power base q := by
    obtain ⟨hbase, k, rfl⟩ := h
    exact m.whole_raise_le hbase k
  refine ⟨_, rfl, ?_⟩
  calc m.total (sortExprs _)
      ≤ m.total ((Tally.ofList ((factors x ++ factors y).map powerOf)).map
          fun p => raise p.1 p.2) := by
        rw [total_sortExprs]
        exact m.total_filter_le _ _
    _ ≤ Tally.weigh m.power (Tally.ofList ((factors x ++ factors y).map powerOf)) := by
        rw [total, List.map_map]
        exact List.sum_le_sum fun p hp => raised (merged p hp)
    _ ≤ Tally.weigh m.power ((factors x ++ factors y).map powerOf) := tally
    _ ≤ m.total (factors x ++ factors y) := by
        rw [Tally.weigh, List.map_map]
        exact List.sum_le_sum fun f hf => m.power_powerOf_le (rational f hf)
    _ = m.total (factors x) + m.total (factors y) := m.total_append _ _

/-- What is left of a term without its coefficient is a product whose factors measure no more than the
term without its constant factors. -/
theorem exists_splitCoeff (he : e.IsRationalIn v) :
    ∃ es, (splitCoeff e).2 = product es ∧ m.total es ≤ m.rest e := by
  have closed := hereditary_isRationalIn v
  fun_induction splitCoeff e with
  | case1 c => exact ⟨[], rfl, Nat.zero_le _⟩
  | case2 a ih => exact (m.rest_neg a).symm ▸ ih he
  | case3 a b ca ba hsa cb bb hsb cm base hm iha ihb =>
    obtain ⟨as, ha, has⟩ := iha he.1
    obtain ⟨bs, hb, hbs⟩ := ihb he.2
    have rational := closed.splitCoeff he.1
    have rational' := closed.splitCoeff he.2
    obtain ⟨es, hes, bound⟩ := m.exists_mergeFactors rational rational'
    rw [hsa] at ha
    rw [hsb] at hb
    rw [hsa, hsb, hm] at hes
    rw [hsa, hsb, ha, hb] at bound
    have := m.total_factors_product_le as
    have := m.total_factors_product_le bs
    refine ⟨es, hes, ?_⟩
    rw [m.rest_mul]
    omega
  | case4 e not_const not_neg not_mul =>
    refine ⟨[e], rfl, ?_⟩
    rw [total_cons, m.whole_eq_rest e not_const not_neg not_mul]
    exact le_rfl

theorem total_collect_le (hes : ∀ t ∈ es, t.IsRationalIn v ∧ m.rest t ≤ n) :
    ∀ p ∈ collect es, m.total p.1 ≤ n := by
  refine Tally.forall_mem_ofList (R := fun key _ => m.total key ≤ n) (fun hp _ => hp) fun p hp => ?_
  rw [List.mem_filterMap] at hp
  obtain ⟨t, ht, hp⟩ := hp
  simp only [Option.ite_none_left_eq_some, Option.some.injEq] at hp
  obtain ⟨-, rfl⟩ := hp
  obtain ⟨rational, bound⟩ := hes t ht
  obtain ⟨fs, hfs, total_le⟩ := m.exists_splitCoeff rational
  change m.total (sortExprs (factors (splitCoeff t).2)) ≤ n
  rw [total_sortExprs, hfs]
  exact (m.total_factors_product_le fs).trans (total_le.trans bound)

end Measure

end Simplify

end Tutor
