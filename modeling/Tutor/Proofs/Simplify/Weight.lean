import Tutor.Proofs.Simplify.Measure

/-!
How large exponents can get. Merging equal bases adds exponents and nested powers multiply them, so an
expression is weighed: the factors of a product count together, the terms of a sum each on its own, and
a power counts its base as often as its exponent says. No step of simplification makes an expression
heavier, and no exponent is larger than the weight.

A term may gain a rational coefficient on the way. So there are two weights, with constant factors and
without; the one with them grows by no more than one.
-/

set_option autoImplicit false
set_option relaxedAutoImplicit false

namespace Tutor

namespace Expr

/-! ### Weights -/

/-- How often a power counts its base: as often as its exponent says, but at least twice; once if the
exponent is zero. -/
def cost (k : Int) : Nat := if k = 0 then 1 else max 2 k.natAbs

/-- An exponent that is no integer is never merged. -/
def exponentCost (b : Expr) : Nat := (b.signedInteger?.map cost).getD 1

def weight (constants : Bool) : Expr → Nat
  | .const _ => constants.toNat
  | .add a b | .sub a b => max 1 (max (weight false a) (weight false b))
  | .mul a b => weight constants a + weight constants b
  | .div a b => max (max 1 (max (weight false a) (weight true a - 1)))
      (max 1 (max (weight false b) (weight true b - 1)))
  | .pow a b => b.exponentCost * max 1 (max (weight false a) (weight true a - 1))
  | .neg a => weight constants a
  | .var _ | .sin _ | .cos _ | .tan _ | .exp _ | .log _ => 1

/-- What an expression weighs as the base of a power: one constant factor is free. -/
def baseWeight (e : Expr) : Nat := max 1 (max (e.weight false) (e.weight true - 1))

variable {a b e : Expr} {constants : Bool} {j k : Int}

@[simp]
theorem weight_const_false (q : Rat) : (Expr.const q).weight false = 0 := rfl

@[simp]
theorem weight_const_true (q : Rat) : (Expr.const q).weight true = 1 := rfl

private theorem weight_add :
    (Expr.add a b).weight constants = max 1 (max (a.weight false) (b.weight false)) := rfl

private theorem weight_mul : (Expr.mul a b).weight constants = a.weight constants + b.weight constants := rfl

theorem weight_div : (Expr.div a b).weight constants = max a.baseWeight b.baseWeight := rfl

theorem weight_pow : (Expr.pow a b).weight constants = b.exponentCost * a.baseWeight := rfl

theorem one_le_baseWeight : 1 ≤ e.baseWeight := Nat.le_max_left _ _

theorem one_le_cost (k : Int) : 1 ≤ cost k := by
  unfold cost
  split_ifs <;> omega

theorem natAbs_le_cost (k : Int) : k.natAbs ≤ cost k := by
  unfold cost
  split_ifs <;> omega

theorem cost_le (k : Int) : cost k ≤ 1 + k.natAbs := by
  unfold cost
  split_ifs <;> omega

private theorem cost_add_le (j k : Int) : cost (j + k) ≤ cost j + cost k := by
  unfold cost
  split_ifs <;> omega

private theorem cost_succ_le (h : k ≠ 0) : cost (k + 1) ≤ 1 + cost k := by
  unfold cost
  split_ifs <;> omega

private theorem cost_mul_le (j k : Int) : cost (j * k) ≤ cost j * cost k := by
  by_cases hj : j = 0
  · simpa [hj, cost] using one_le_cost k
  · by_cases hk : k = 0
    · simpa [hk, cost] using one_le_cost j
    · have product := Nat.mul_le_mul (natAbs_le_cost j) (natAbs_le_cost k)
      have least : 2 * 1 ≤ cost j * cost k := by
        refine Nat.mul_le_mul ?_ (one_le_cost k)
        unfold cost
        split_ifs
        omega
      rw [cost, if_neg (Int.mul_ne_zero hj hk), Int.natAbs_mul]
      exact max_le least product

theorem one_le_exponentCost (b : Expr) : 1 ≤ b.exponentCost := by
  unfold exponentCost
  cases b.signedInteger? with
  | none => exact le_rfl
  | some k => exact one_le_cost k

@[simp]
theorem exponentCost_intCast (k : Int) : (Expr.const k).exponentCost = cost k := by
  simp [exponentCost]

private theorem weight_false_le (e : Expr) : e.weight false ≤ e.weight true := by
  induction e with
  | mul a b iha ihb => exact Nat.add_le_add iha ihb
  | neg a ih => exact ih
  | const q => exact Nat.zero_le _
  | _ => exact le_rfl

private theorem one_le_weight (e : Expr) : 1 ≤ e.weight true := by
  induction e with
  | mul a b iha _ => exact iha.trans (Nat.le_add_right _ _)
  | neg a ih => exact ih
  | add a b _ _ | sub a b _ _ => exact Nat.le_max_left _ _
  | div a b _ _ => exact one_le_baseWeight.trans (Nat.le_max_left _ _)
  | pow a b _ _ => exact Nat.mul_le_mul (one_le_exponentCost b) one_le_baseWeight
  | _ => exact le_rfl

theorem weight_false_le_baseWeight (e : Expr) : e.weight false ≤ e.baseWeight := by
  unfold baseWeight
  omega

private theorem weight_true_le (e : Expr) : e.weight true ≤ e.baseWeight + 1 := by
  unfold baseWeight
  omega

private theorem baseWeight_le_weight (e : Expr) : e.baseWeight ≤ e.weight true := by
  have := weight_false_le e
  have := one_le_weight e
  unfold baseWeight
  omega

private theorem baseWeight_le_iff {m : Nat} (hm : 1 ≤ m) :
    e.baseWeight ≤ m ↔ e.weight false ≤ m ∧ e.weight true ≤ m + 1 := by
  unfold baseWeight
  omega

end Expr

namespace Simplify

open Tutor.Expr (weight baseWeight baseWeight_le_weight cost IsRationalIn hereditary_isRationalIn)

variable {v : String} {x y e : Expr} {es : List Expr} {j k : Int} {m : Nat}

/-! ### Powers -/

def powerWeight (x : Expr) (q : Rat) : Nat :=
  if q = 1 then x.weight true else (Expr.const q).exponentCost * x.baseWeight

private theorem powerWeight_one (x : Expr) : powerWeight x 1 = x.weight true := if_pos rfl

private theorem powerWeight_intCast (x : Expr) (h1 : k ≠ 1) : powerWeight x k = cost k * x.baseWeight := by
  rw [powerWeight, if_neg (by exact_mod_cast h1), Expr.exponentCost_intCast]

private theorem one_le_powerWeight (x : Expr) (q : Rat) : 1 ≤ powerWeight x q := by
  unfold powerWeight
  split_ifs
  · exact x.one_le_weight
  · exact Nat.mul_le_mul (Expr.one_le_exponentCost _) x.one_le_baseWeight

private theorem weight_pow_const (x : Expr) {q : Rat} (h1 : q ≠ 1) (constants : Bool) :
    (Expr.pow x (.const q)).weight constants = powerWeight x q := by
  rw [Expr.weight_pow, powerWeight, if_neg h1]

private theorem powerWeight_le (x : Expr) (k : Int) : powerWeight x k ≤ cost k * x.baseWeight := by
  by_cases h1 : k = 1
  · subst h1
    have := x.weight_true_le
    have := x.one_le_baseWeight
    rw [Int.cast_one, powerWeight_one]
    change x.weight true ≤ 2 * x.baseWeight
    omega
  · exact (powerWeight_intCast x h1).le

private theorem powerWeight_succ_le (x : Expr) (k : Int) :
    powerWeight x ((k + 1 : Int) : Rat) ≤ powerWeight x k + x.weight true := by
  have base_le := x.baseWeight_le_weight
  rcases eq_or_ne k 0 with rfl | h0
  · rw [Int.zero_add, Int.cast_one, powerWeight_one]
    exact Nat.le_add_left _ _
  · rw [powerWeight_intCast x (by omega)]
    have bound := Nat.mul_le_mul_right x.baseWeight (Expr.cost_succ_le h0)
    rw [Nat.add_mul, Nat.one_mul] at bound
    rcases eq_or_ne k 1 with rfl | h1
    · rw [Int.cast_one, powerWeight_one]
      change 2 * x.baseWeight ≤ _
      omega
    · rw [powerWeight_intCast x h1]
      omega

private theorem powerWeight_add_le (x : Expr) (j k : Int) :
    powerWeight x ((j : Rat) + k) ≤ powerWeight x j + powerWeight x k := by
  rw [← Int.cast_add]
  rcases eq_or_ne k 1 with rfl | hk
  · rw [Int.cast_one, powerWeight_one]
    exact powerWeight_succ_le x j
  · rcases eq_or_ne j 1 with rfl | hj
    · rw [Int.cast_one, powerWeight_one, Int.add_comm, Nat.add_comm]
      exact powerWeight_succ_le x k
    · rw [powerWeight_intCast x hj, powerWeight_intCast x hk, ← Nat.add_mul]
      exact (powerWeight_le x _).trans (Nat.mul_le_mul_right _ (Expr.cost_add_le j k))

private theorem powerWeight_mul_le (x : Expr) (j k : Int) :
    powerWeight x ((j : Rat) * k) ≤ cost k * (Expr.pow x (.const j)).baseWeight := by
  have inner := (Expr.pow x (.const j)).weight_false_le_baseWeight
  rw [Expr.weight_pow, Expr.exponentCost_intCast] at inner
  rw [← Int.cast_mul]
  calc powerWeight x (j * k : Int)
      ≤ cost j * cost k * x.baseWeight :=
        (powerWeight_le x _).trans (Nat.mul_le_mul_right _ (Expr.cost_mul_le j k))
    _ = cost k * (cost j * x.baseWeight) := by rw [Nat.mul_comm (cost j), Nat.mul_assoc]
    _ ≤ cost k * (Expr.pow x (.const j)).baseWeight := Nat.mul_le_mul_left _ inner

private theorem weight_raise_le {q : Rat} (hx : x.IsRationalIn v) (hq : ∃ k : Int, q = k) :
    (raise x q).weight true ≤ powerWeight x q := by
  have whole : q.den = 1 := by
    obtain ⟨k, rfl⟩ := hq
    exact Rat.den_intCast k
  fun_induction raise x q with
  | case1 x => exact one_le_powerWeight x 0
  | case2 x _ => exact (powerWeight_one x).ge
  | case3 q _ h1 b =>
    simp only [constPow, if_pos whole]
    split
    · exact one_le_powerWeight _ q
    · exact (weight_pow_const _ h1 true).le
  | case4 q _ h1 base p _ ih =>
    obtain ⟨hbase, j, hj⟩ := hx
    obtain rfl : p = j := by simpa using hj
    obtain ⟨k, rfl⟩ := hq
    have merged := ih hbase ⟨j * k, (Int.cast_mul j k).symm⟩ (by rw [← Int.cast_mul, Rat.den_intCast])
    rw [powerWeight_intCast _ (by exact_mod_cast h1)]
    exact merged.trans (powerWeight_mul_le base j k)
  | case5 q _ _ base p fraction => exact absurd whole fraction
  | case6 x q _ h1 _ _ => exact (weight_pow_const _ h1 true).le

private theorem powerWeight_powerOf_le (x : Expr) : powerWeight (powerOf x).1 (powerOf x).2 ≤ x.weight true := by
  rw [powerOf.eq_def]
  split
  · rename_i base q
    by_cases h1 : q = 1
    · subst h1
      rw [powerWeight_one, Expr.weight_pow]
      have := base.weight_true_le
      have := base.one_le_baseWeight
      change base.weight true ≤ 2 * base.baseWeight
      omega
    · exact (weight_pow_const base h1 true).ge
  · exact (powerWeight_one x).le

/-! ### Products without sums -/

def weights (v : String) : Measure v where
  whole := weight true
  rest := weight false
  power := powerWeight
  whole_mul _ _ := rfl
  rest_mul _ _ := rfl
  rest_neg _ := rfl
  whole_eq_rest e not_const not_neg not_mul := by
    cases e with
    | const c => exact absurd rfl (not_const c)
    | neg a => exact absurd rfl (not_neg a)
    | mul a b => exact absurd rfl (not_mul a b)
    | _ => rfl
  power_add_le := powerWeight_add_le
  whole_raise_le hx k := weight_raise_le hx ⟨k, rfl⟩
  power_powerOf_le _ := powerWeight_powerOf_le _

private theorem weight_false_product_le (es : List Expr) : (product es).weight false ≤ (weights v).total es := by
  cases es with
  | nil => exact le_rfl
  | cons e rest => exact ((weights v).whole_product_cons e rest) ▸ Expr.weight_false_le _

private theorem weight_product_le (es : List Expr) :
    (product es).weight true ≤ max 1 ((weights v).total es) := by
  cases es with
  | nil => exact le_rfl
  | cons e rest => exact ((weights v).whole_product_cons e rest).le.trans (Nat.le_max_right _ _)

/-! ### Signs and coefficients -/

variable {constants : Bool}

private theorem weight_scaleWith_le {c : Rat} (hx : x.weight constants ≤ e.weight constants) :
    (scaleWith c e x).weight constants ≤ constants.toNat + e.weight constants := by
  simp only [scaleWith]
  split_ifs
  · exact Nat.le_add_right _ _
  · exact Nat.le_add_right _ _
  · exact Nat.le_add_left _ _
  · exact hx.trans (Nat.le_add_left _ _)
  · exact le_rfl

private theorem weight_neg_le (constants : Bool) (e : Expr) :
    (neg e).weight constants ≤ e.weight constants := by
  fun_induction neg e with
  | case1 q => exact le_rfl
  | case2 a => exact le_rfl
  | case3 c b ih => exact weight_scaleWith_le ih
  | case4 e _ _ _ => exact le_rfl

private theorem weight_scale_le (constants : Bool) (c : Rat) (e : Expr) :
    (scale c e).weight constants ≤ constants.toNat + e.weight constants :=
  weight_scaleWith_le (weight_neg_le constants e)

private theorem weight_scale_product_le (v : String) (constants : Bool) (c : Rat) (es : List Expr) :
    (scale c (product es)).weight constants ≤ constants.toNat + (weights v).total es := by
  cases es with
  | nil =>
    have constant : scale c (product []) = .const c := by
      by_cases h0 : c = 0
      · subst h0
        rfl
      · exact (if_neg h0).trans (if_pos rfl)
    rw [constant]
    exact le_rfl
  | cons e rest =>
    have scaled := weight_scale_le constants c (product (e :: rest))
    have product_le : (product (e :: rest)).weight constants ≤ (weights v).total (e :: rest) := by
      cases constants with
      | false => exact weight_false_product_le _
      | true => exact ((weights v).whole_product_cons e rest).le
    omega

/-! ### Sums -/

private theorem weight_terms_le (e : Expr) : ∀ t ∈ terms e, t.weight false ≤ e.weight false := by
  have negated {m : Nat} {es : List Expr} (h : ∀ t ∈ es, t.weight false ≤ m) :
      ∀ t ∈ es.map neg, t.weight false ≤ m :=
    List.forall_mem_map.mpr fun t ht => (weight_neg_le false t).trans (h t ht)
  have left (a b : Expr) : a.weight false ≤ (Expr.add a b).weight false :=
    (Nat.le_max_left _ _).trans (Nat.le_max_right _ _)
  have right (a b : Expr) : b.weight false ≤ (Expr.add a b).weight false :=
    (Nat.le_max_right _ _).trans (Nat.le_max_right _ _)
  fun_induction terms e with
  | case1 a b iha ihb =>
    exact List.forall_mem_append.mpr
      ⟨fun t ht => (iha t ht).trans (left a b), fun t ht => (ihb t ht).trans (right a b)⟩
  | case2 a b iha ihb =>
    exact List.forall_mem_append.mpr
      ⟨fun t ht => (iha t ht).trans (left a b), negated fun t ht => (ihb t ht).trans (right a b)⟩
  | case3 a ih => exact negated ih
  | case4 e _ _ _ => simp

private theorem baseWeight_foldl_add_le (hm : 1 ≤ m) (he : e.baseWeight ≤ m)
    (hes : ∀ t ∈ es, t.baseWeight ≤ m) : (es.foldl .add e).baseWeight ≤ m := by
  refine foldl_closed (P := fun e => e.baseWeight ≤ m) (fun {a b} ha hb => ?_) he hes
  have := a.weight_false_le_baseWeight
  have := b.weight_false_le_baseWeight
  rw [Expr.baseWeight_le_iff hm, Expr.weight_add, Expr.weight_add]
  omega

private theorem baseWeight_sum_le (hm : 1 ≤ m) (hes : ∀ t ∈ es, t.baseWeight ≤ m) : (sum es).baseWeight ≤ m := by
  cases es with
  | nil => exact hm
  | cons e rest =>
    rw [List.forall_mem_cons] at hes
    exact baseWeight_foldl_add_le hm hes.1 hes.2

private theorem baseWeight_ofTally_le {t : Tally (List Expr)} (hm : 1 ≤ m)
    (ht : ∀ p ∈ t, (weights v).total p.1 ≤ m) :
    (ofTally t).baseWeight ≤ m := by
  simp only [ofTally, List.partition_eq_filter_filter]
  refine baseWeight_sum_le hm (List.forall_mem_append.mpr ⟨?_, ?_⟩)
  · rw [List.forall_mem_map]
    intro p hp
    have bound := ht p (List.mem_filter.mp (List.mem_filter.mp hp).1).1
    have rest := weight_scale_product_le v false p.2 p.1
    have whole := weight_scale_product_le v true p.2 p.1
    rw [Bool.toNat_false] at rest
    rw [Bool.toNat_true] at whole
    rw [Expr.baseWeight_le_iff hm]
    omega
  · rw [List.forall_mem_map]
    exact fun p _ => hm

private theorem baseWeight_add_le (hx : x.IsRationalIn v) (hy : y.IsRationalIn v) :
    (add x y).baseWeight ≤ max 1 (max (x.weight false) (y.weight false)) := by
  have closed := hereditary_isRationalIn v
  refine baseWeight_ofTally_le (Nat.le_max_left _ _) ((weights v).total_collect_le ?_)
  refine List.forall_mem_append.mpr ⟨fun t ht => ⟨closed.terms hx t ht, ?_⟩,
    fun t ht => ⟨closed.terms hy t ht, ?_⟩⟩
  · exact (weight_terms_le x t ht).trans ((Nat.le_max_left _ _).trans (Nat.le_max_right _ _))
  · exact (weight_terms_le y t ht).trans ((Nat.le_max_right _ _).trans (Nat.le_max_right _ _))

private theorem baseWeight_sub_le (hx : x.IsRationalIn v) (hy : y.IsRationalIn v) :
    (sub x y).baseWeight ≤ max 1 (max (x.weight false) (y.weight false)) := by
  have added := baseWeight_add_le hx ((hereditary_isRationalIn v).neg hy)
  have negated := weight_neg_le false y
  rw [sub]
  omega

theorem baseWeight_add_le_max (hx : x.IsRationalIn v) (hy : y.IsRationalIn v) :
    (add x y).baseWeight ≤ max x.baseWeight y.baseWeight := by
  have sum := baseWeight_add_le hx hy
  have := x.weight_false_le_baseWeight
  have := y.weight_false_le_baseWeight
  have := x.one_le_baseWeight
  omega

theorem baseWeight_sub_le_max (hx : x.IsRationalIn v) (hy : y.IsRationalIn v) :
    (sub x y).baseWeight ≤ max x.baseWeight y.baseWeight := by
  have sum := baseWeight_sub_le hx hy
  have := x.weight_false_le_baseWeight
  have := y.weight_false_le_baseWeight
  have := x.one_le_baseWeight
  omega

theorem baseWeight_neg_le (e : Expr) : (neg e).baseWeight ≤ e.baseWeight := by
  have rest := weight_neg_le false e
  have whole := weight_neg_le true e
  unfold baseWeight
  omega

/-! ### Products and quotients -/

/-- What a product may weigh: its parts weigh together, except that two coefficients become one. -/
def ProductWeight (x y e : Expr) : Prop :=
  e.weight false ≤ x.weight false + y.weight false ∧
    e.weight true ≤ max (1 + x.weight false + y.weight false)
      (max (x.weight true + y.weight false) (x.weight false + y.weight true))

theorem ProductWeight.symm (h : ProductWeight x y e) : ProductWeight y x e := by
  unfold ProductWeight at h ⊢
  omega

private theorem ProductWeight.over_sum {a b s t : Expr} (hs : ProductWeight x a s) (ht : ProductWeight x b t)
    (he : e.baseWeight ≤ max 1 (max (s.weight false) (t.weight false))) :
    ProductWeight x (.add a b) e := by
  have left := hs.1
  have right := ht.1
  have := e.weight_false_le_baseWeight
  have := e.weight_true_le
  unfold ProductWeight
  rw [Expr.weight_add, Expr.weight_add]
  omega

private theorem productWeight_mul (h : x.weight true = x.weight false ∨ y.weight true = y.weight false) :
    ProductWeight x y (.mul x y) := by
  refine ⟨le_rfl, ?_⟩
  rw [Expr.weight_mul]
  omega

private theorem productWeight_mulPlain (hx : x.IsRationalIn v) (hy : y.IsRationalIn v) :
    ProductWeight x y (mulPlain x y) := by
  have constant (q : Rat) : ProductWeight x y (.const q) := by
    unfold ProductWeight
    rw [Expr.weight_const_false, Expr.weight_const_true]
    omega
  rw [mulPlain.eq_def]
  split
  · exact constant _
  · split_ifs
    · exact constant 0
    · unfold ProductWeight
      omega
    · unfold ProductWeight
      omega
    · obtain ⟨es, hes, bound⟩ := (weights v).exists_splitCoeff (e := .mul x y) ⟨hx, hy⟩
      change (weights v).total es ≤ (Expr.mul x y).weight false at bound
      have term : ProductWeight x y (scale (splitCoeff (.mul x y)).1 (splitCoeff (.mul x y)).2) := by
        rw [hes]
        have rest := weight_scale_product_le v false (splitCoeff (.mul x y)).1 es
        have whole := weight_scale_product_le v true (splitCoeff (.mul x y)).1 es
        rw [Expr.weight_mul] at bound
        rw [Bool.toNat_false] at rest
        rw [Bool.toNat_true] at whole
        unfold ProductWeight
        omega
      exact term

private theorem productWeight_mulRight (hx : x.IsRationalIn v) (hy : y.IsRationalIn v) :
    ProductWeight x y (mulRight x y) := by
  have closed := hereditary_isRationalIn v
  fun_induction mulRight x y with
  | case1 a b _ iha ihb =>
    exact (iha hy.1).over_sum (ihb hy.2)
      (baseWeight_add_le (closed.mulRight hx hy.1) (closed.mulRight hx hy.2))
  | case2 a b _ => exact productWeight_mul (.inr rfl)
  | case3 a b _ iha ihb =>
    exact (iha hy.1).over_sum (ihb hy.2)
      (baseWeight_sub_le (closed.mulRight hx hy.1) (closed.mulRight hx hy.2))
  | case4 a b _ => exact productWeight_mul (.inr rfl)
  | case5 y _ _ => exact productWeight_mulPlain hx hy

theorem productWeight_product (hx : x.IsRationalIn v) (hy : y.IsRationalIn v) :
    ProductWeight x y (mul x y) := by
  have closed := hereditary_isRationalIn v
  fun_induction mul x y with
  | case1 a b _ iha ihb =>
    exact ((iha hx.1).symm.over_sum (ihb hx.2).symm
      (baseWeight_add_le (closed.mul hx.1 hy) (closed.mul hx.2 hy))).symm
  | case2 a b _ => exact productWeight_mul (.inl rfl)
  | case3 a b _ iha ihb =>
    exact ((iha hx.1).symm.over_sum (ihb hx.2).symm
      (baseWeight_sub_le (closed.mul hx.1 hy) (closed.mul hx.2 hy))).symm
  | case4 a b _ => exact productWeight_mul (.inl rfl)
  | case5 x _ _ => exact productWeight_mulRight hx hy

theorem baseWeight_mul_le (hx : x.IsRationalIn v) (hy : y.IsRationalIn v) :
    (mul x y).baseWeight ≤ x.baseWeight + y.baseWeight := by
  have bound := productWeight_product hx hy
  unfold ProductWeight at bound
  unfold baseWeight
  omega

private theorem weight_splitCoeff_le (he : e.IsRationalIn v) : (splitCoeff e).2.weight true ≤ e.baseWeight := by
  obtain ⟨es, hes, bound⟩ := (weights v).exists_splitCoeff he
  change (weights v).total es ≤ e.weight false at bound
  have whole := weight_product_le (v := v) es
  have := e.weight_false_le_baseWeight
  have := e.one_le_baseWeight
  rw [hes]
  omega

theorem baseWeight_div_le (hx : x.IsRationalIn v) (hy : y.IsRationalIn v) :
    (div x y).baseWeight ≤ max x.baseWeight y.baseWeight := by
  have closed := hereditary_isRationalIn v
  have hpos := x.one_le_baseWeight
  have node (a b : Expr) : (Expr.div a b).baseWeight ≤ max a.baseWeight b.baseWeight := by
    have := a.one_le_baseWeight
    rw [Expr.baseWeight_le_iff (by omega), Expr.weight_div, Expr.weight_div]
    omega
  have constant (q : Rat) : (Expr.const q).baseWeight ≤ max x.baseWeight y.baseWeight :=
    hpos.trans (Nat.le_max_left _ _)
  -- A coefficient times an expression weighs no more as a base than the expression.
  have scaled (q : Rat) {e : Expr} (he : e.IsRationalIn v)
      (bound : e.weight true ≤ max x.baseWeight y.baseWeight) :
      (mul (.const q) e).baseWeight ≤ max x.baseWeight y.baseWeight := by
    have product := productWeight_product (closed.const q) he
    have := e.weight_false_le
    unfold ProductWeight at product
    rw [Expr.weight_const_false, Expr.weight_const_true] at product
    rw [Expr.baseWeight_le_iff (by omega)]
    omega
  have plain : (divPlain x y).baseWeight ≤ max x.baseWeight y.baseWeight := by
    simp only [divPlain]
    split_ifs
    · exact node x y
    · exact constant _
    · exact scaled _ (closed.splitCoeff hx) ((weight_splitCoeff_le hx).trans (Nat.le_max_left _ _))
    · refine scaled _ (closed.div_iff.mpr ⟨closed.splitCoeff hx, closed.splitCoeff hy⟩) ?_
      have left := (baseWeight_le_weight _).trans (weight_splitCoeff_le hx)
      have right := (baseWeight_le_weight _).trans (weight_splitCoeff_le hy)
      rw [Expr.weight_div]
      omega
  rw [div.eq_def]
  split
  · split_ifs
    · exact node _ _
    · exact constant _
  · split_ifs
    · exact constant 0
    · exact Nat.le_max_left _ _
    · exact plain

theorem baseWeight_raise_le (hx : x.IsRationalIn v) (k : Int) :
    (raise x k).baseWeight ≤ cost k * x.baseWeight :=
  (baseWeight_le_weight _).trans ((weight_raise_le hx ⟨k, rfl⟩).trans (powerWeight_le x k))

/-! ### A pass -/

/-- The first expression weighs no more than the second, except that it may have a coefficient. -/
structure Lighter (x y : Expr) : Prop where
  rest : x.weight false ≤ y.weight false
  whole : x.weight true ≤ max (1 + y.weight false) (y.weight true)

theorem Lighter.refl (e : Expr) : Lighter e e := ⟨le_rfl, Nat.le_max_right _ _⟩

theorem Lighter.baseWeight_le (h : Lighter x y) : x.baseWeight ≤ y.baseWeight := by
  obtain ⟨rest, whole⟩ := h
  unfold baseWeight
  omega

private theorem lighter_of_baseWeight_le (h : x.baseWeight ≤ y.weight false) : Lighter x y := by
  have := x.weight_false_le_baseWeight
  have := x.weight_true_le
  exact ⟨by omega, by omega⟩

theorem Lighter.product {a b : Expr} (ha : Lighter x a) (hb : Lighter y b) (he : ProductWeight x y e) :
    Lighter e (.mul a b) := by
  obtain ⟨arest, awhole⟩ := ha
  obtain ⟨brest, bwhole⟩ := hb
  have := a.weight_false_le
  have := b.weight_false_le
  unfold ProductWeight at he
  refine ⟨?_, ?_⟩
  · rw [Expr.weight_mul]
    omega
  · rw [Expr.weight_mul, Expr.weight_mul]
    omega

/-- A pass makes no expression heavier. -/
theorem lighter_simplify (he : e.IsRationalIn v) : Lighter e.simplify e := by
  induction e with
  | var name => exact .refl _
  | const q => exact .refl _
  | add a b iha ihb =>
    have sum := baseWeight_add_le (Expr.isRationalIn_simplify he.1) (Expr.isRationalIn_simplify he.2)
    have left := (iha he.1).rest
    have right := (ihb he.2).rest
    refine lighter_of_baseWeight_le (sum.trans ?_)
    rw [weight]
    omega
  | sub a b iha ihb =>
    have sum := baseWeight_sub_le (Expr.isRationalIn_simplify he.1) (Expr.isRationalIn_simplify he.2)
    have left := (iha he.1).rest
    have right := (ihb he.2).rest
    refine lighter_of_baseWeight_le (sum.trans ?_)
    rw [weight]
    omega
  | mul a b iha ihb =>
    exact (iha he.1).product (ihb he.2)
      (productWeight_product (Expr.isRationalIn_simplify he.1) (Expr.isRationalIn_simplify he.2))
  | div a b iha ihb =>
    have quotient := baseWeight_div_le (Expr.isRationalIn_simplify he.1) (Expr.isRationalIn_simplify he.2)
    have left := (iha he.1).baseWeight_le
    have right := (ihb he.2).baseWeight_le
    refine lighter_of_baseWeight_le (quotient.trans ?_)
    rw [Expr.weight_div]
    omega
  | pow a b iha _ =>
    obtain ⟨ha, k, rfl⟩ := he
    have power := baseWeight_raise_le (Expr.isRationalIn_simplify ha) k
    refine lighter_of_baseWeight_le (power.trans ?_)
    rw [Expr.weight_pow, Expr.exponentCost_intCast]
    exact Nat.mul_le_mul_left _ (iha ha).baseWeight_le
  | neg a ih =>
    have rest := (weight_neg_le false a.simplify).trans (ih he).rest
    have whole := (weight_neg_le true a.simplify).trans (ih he).whole
    exact ⟨rest, whole⟩
  | sin a | cos a | tan a | exp a | log a => exact he.elim

end Simplify

end Tutor
