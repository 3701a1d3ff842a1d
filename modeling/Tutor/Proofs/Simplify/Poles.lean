import Tutor.Proofs.Poly.Place
import Tutor.Proofs.Simplify.Measure

/-!
How many poles an expression can have at a place, and how many zeros. The factors of a product count
together, and of the terms of a sum the one with the most poles counts; a sum has as many more zeros than
poles as its order says. A power turns the zeros of its base to poles if its exponent is negative. No step
of simplification gives an expression more poles than its parts have.
-/

set_option autoImplicit false
set_option relaxedAutoImplicit false

namespace Tutor

open Polynomial

structure Fraction where
  numer : ℚ[X]
  denom : ℚ[X]

noncomputable def Fraction.order (f : Fraction) (P : Place) : ℤ := P.order f.numer - P.order f.denom

namespace Expr

/-- The quotient that an expression of one variable is, nothing cancelled. -/
noncomputable def fraction : Expr → Fraction
  | .var _ => ⟨X, 1⟩
  | .const q => ⟨C q, 1⟩
  | .add a b =>
    ⟨a.fraction.numer * b.fraction.denom + b.fraction.numer * a.fraction.denom,
      a.fraction.denom * b.fraction.denom⟩
  | .sub a b =>
    ⟨a.fraction.numer * b.fraction.denom - b.fraction.numer * a.fraction.denom,
      a.fraction.denom * b.fraction.denom⟩
  | .mul a b => ⟨a.fraction.numer * b.fraction.numer, a.fraction.denom * b.fraction.denom⟩
  | .div a b => ⟨a.fraction.numer * b.fraction.denom, a.fraction.denom * b.fraction.numer⟩
  | .neg a => ⟨-a.fraction.numer, a.fraction.denom⟩
  | .pow a b =>
    let k := b.signedInteger?.getD 0
    ⟨a.fraction.numer ^ k.toNat * a.fraction.denom ^ (-k).toNat,
      a.fraction.denom ^ k.toNat * a.fraction.numer ^ (-k).toNat⟩
  | .sin _ | .cos _ | .tan _ | .exp _ | .log _ => ⟨0, 1⟩

/-- The poles at a place, or the zeros: as many more as the order says. -/
def polesOrZeros (zeros : Bool) (poles : Nat) (order : ℤ) : Nat :=
  if zeros then (poles + order).toNat else poles

/-- How many poles, or how many zeros, an expression can have at a place. The base of a power with exponent
zero still counts. -/
noncomputable def divisor (P : Place) (zeros : Bool) : Expr → Nat
  | .const _ => 0
  | .var name => polesOrZeros zeros (-P.order X).toNat ((Expr.var name).fraction.order P)
  | .add a b => polesOrZeros zeros (max (divisor P false a) (divisor P false b))
      ((Expr.add a b).fraction.order P)
  | .sub a b => polesOrZeros zeros (max (divisor P false a) (divisor P false b))
      ((Expr.sub a b).fraction.order P)
  | .mul a b => divisor P zeros a + divisor P zeros b
  | .div a b => divisor P zeros a + divisor P (!zeros) b
  | .neg a => divisor P zeros a
  | .pow a b =>
    let k := b.signedInteger?.getD 0
    (if k = 0 then divisor P false a else 0) +
      (k.toNat * divisor P zeros a + (-k).toNat * divisor P (!zeros) a)
  | .sin _ | .cos _ | .tan _ | .exp _ | .log _ => 0

noncomputable abbrev poles (e : Expr) (P : Place) : Nat := e.divisor P false

noncomputable abbrev zeros (e : Expr) (P : Place) : Nat := e.divisor P true

end Expr

namespace Simplify

open Tutor.Expr (divisor poles zeros IsRationalIn hereditary_isRationalIn)

variable {v : String} {x y e : Expr} {es : List Expr} {n : Nat} (P : Place) (inverse : Bool)

/-! ### Powers -/

noncomputable def powerDivisor (x : Expr) (k : Int) : Nat :=
  k.toNat * x.divisor P inverse + (-k).toNat * x.divisor P (!inverse)

private theorem powerDivisor_one (x : Expr) : powerDivisor P inverse x 1 = x.divisor P inverse := by
  simp [powerDivisor]

theorem powerDivisor_le_divisor_pow (x : Expr) (k : Int) :
    powerDivisor P inverse x k ≤ (Expr.pow x (.const k)).divisor P inverse := by
  simp only [divisor, Expr.signedInteger?_intCast, Option.getD_some]
  exact Nat.le_add_left _ _

theorem divisor_pow_of_ne_zero (x : Expr) {k : Int} (h0 : k ≠ 0) :
    (Expr.pow x (.const k)).divisor P inverse = powerDivisor P inverse x k := by
  simp only [divisor, Expr.signedInteger?_intCast, Option.getD_some, if_neg h0, Nat.zero_add, powerDivisor]

private theorem powerDivisor_add_le (x : Expr) (j k : Int) :
    powerDivisor P inverse x (j + k) ≤ powerDivisor P inverse x j + powerDivisor P inverse x k := by
  have plain : (j + k).toNat ≤ j.toNat + k.toNat := by omega
  have inverted : (-(j + k)).toNat ≤ (-j).toNat + (-k).toNat := by omega
  have left := Nat.mul_le_mul_right (x.divisor P inverse) plain
  have right := Nat.mul_le_mul_right (x.divisor P (!inverse)) inverted
  rw [Nat.add_mul] at left right
  unfold powerDivisor
  omega

private theorem powerDivisor_mul_le (x : Expr) (j k : Int) :
    powerDivisor P inverse x (j * k) ≤ powerDivisor P inverse (.pow x (.const j)) k := by
  have signs : (j * k).toNat = k.toNat * j.toNat + (-k).toNat * (-j).toNat ∧
      (-(j * k)).toNat = k.toNat * (-j).toNat + (-k).toNat * j.toNat := by
    obtain ⟨m, rfl | rfl⟩ := j.eq_nat_or_neg <;> obtain ⟨n, rfl | rfl⟩ := k.eq_nat_or_neg <;>
      simp [← Int.natCast_mul, -Nat.cast_mul, Nat.mul_comm]
  have plain := Nat.mul_le_mul_left k.toNat (powerDivisor_le_divisor_pow P inverse x j)
  have inverted := Nat.mul_le_mul_left (-k).toNat (powerDivisor_le_divisor_pow P (!inverse) x j)
  refine le_trans (le_of_eq ?_) (Nat.add_le_add plain inverted)
  simp only [powerDivisor, signs.1, signs.2, Bool.not_not]
  ring

theorem divisor_raise_le (hx : x.IsRationalIn v) (k : Int) :
    (raise x k).divisor P inverse ≤ powerDivisor P inverse x k := by
  generalize hq : (k : Rat) = q
  fun_induction raise x q generalizing k with
  | case1 x => exact Nat.zero_le _
  | case2 x _ =>
    obtain rfl : k = 1 := by exact_mod_cast hq
    exact (powerDivisor_one P inverse x).ge
  | case3 q h0 h1 b =>
    subst hq
    simp only [constPow, Rat.den_intCast, if_true]
    split
    · exact Nat.zero_le _
    · exact (divisor_pow_of_ne_zero P inverse _ (by exact_mod_cast h0)).le
  | case4 q h0 h1 base p _ ih =>
    subst hq
    obtain ⟨hbase, j, hj⟩ := hx
    obtain rfl : p = j := by simpa using hj
    exact (ih hbase (j * k) (Int.cast_mul j k)).trans (powerDivisor_mul_le P inverse base j k)
  | case5 q _ _ base p fraction =>
    subst hq
    exact absurd (Rat.den_intCast k) fraction
  | case6 x q h0 h1 _ _ =>
    subst hq
    exact (divisor_pow_of_ne_zero P inverse _ (by exact_mod_cast h0)).le

private theorem powerDivisor_powerOf_le (hx : x.IsRationalIn v) :
    powerDivisor P inverse (powerOf x).1 (powerOf x).2.num ≤ x.divisor P inverse := by
  rw [powerOf.eq_def]
  split
  · obtain ⟨-, k, hk⟩ := hx
    obtain rfl := Expr.const.inj hk
    rw [Rat.num_intCast]
    exact powerDivisor_le_divisor_pow P inverse _ k
  · exact (powerDivisor_one P inverse x).le

/-! ### Products without sums -/

noncomputable def divisors (v : String) : Measure v where
  whole := divisor P inverse
  rest := divisor P inverse
  power x q := powerDivisor P inverse x q.num
  whole_mul _ _ := rfl
  rest_mul _ _ := rfl
  rest_neg _ := rfl
  whole_eq_rest _ _ _ _ := rfl
  power_add_le x j k := by
    rw [← Int.cast_add]
    simpa only [Rat.num_intCast] using powerDivisor_add_le P inverse x j k
  whole_raise_le hx k := by
    rw [Rat.num_intCast]
    exact divisor_raise_le P inverse hx k
  power_powerOf_le := powerDivisor_powerOf_le P inverse

private theorem divisor_product_le (v : String) (es : List Expr) :
    (product es).divisor P inverse ≤ (divisors P inverse v).total es := by
  cases es with
  | nil => exact le_rfl
  | cons e rest => exact ((divisors P inverse v).whole_product_cons e rest).le

private theorem divisor_splitCoeff_le (he : e.IsRationalIn v) :
    (splitCoeff e).2.divisor P inverse ≤ e.divisor P inverse := by
  obtain ⟨es, hes, bound⟩ := (divisors P inverse v).exists_splitCoeff he
  rw [hes]
  exact (divisor_product_le P inverse v es).trans bound

/-! ### Signs and coefficients -/

private theorem divisor_scaleWith_le {c : Rat} (hx : x.divisor P inverse ≤ e.divisor P inverse) :
    (scaleWith c e x).divisor P inverse ≤ e.divisor P inverse := by
  simp only [scaleWith]
  split_ifs
  · exact Nat.zero_le _
  · exact Nat.zero_le _
  · exact le_rfl
  · exact hx
  · exact (Nat.zero_add _).le

theorem divisor_neg_le (e : Expr) : (neg e).divisor P inverse ≤ e.divisor P inverse := by
  fun_induction neg e with
  | case1 q => exact le_rfl
  | case2 a => exact le_rfl
  | case3 c b ih => exact (divisor_scaleWith_le P inverse ih).trans (Nat.zero_add _).ge
  | case4 e _ _ _ => exact le_rfl

private theorem divisor_scale_le (c : Rat) (e : Expr) : (scale c e).divisor P inverse ≤ e.divisor P inverse :=
  divisor_scaleWith_le P inverse (divisor_neg_le P inverse e)

/-! ### Sums -/

private theorem poles_terms_le (e : Expr) : ∀ t ∈ terms e, t.poles P ≤ e.poles P := by
  have negated {n : Nat} {es : List Expr} (h : ∀ t ∈ es, t.poles P ≤ n) :
      ∀ t ∈ es.map neg, t.poles P ≤ n :=
    List.forall_mem_map.mpr fun t ht => (divisor_neg_le P false t).trans (h t ht)
  fun_induction terms e with
  | case1 a b iha ihb =>
    exact List.forall_mem_append.mpr
      ⟨fun t ht => (iha t ht).trans (Nat.le_max_left _ _),
        fun t ht => (ihb t ht).trans (Nat.le_max_right _ _)⟩
  | case2 a b iha ihb =>
    exact List.forall_mem_append.mpr
      ⟨fun t ht => (iha t ht).trans (Nat.le_max_left _ _),
        negated fun t ht => (ihb t ht).trans (Nat.le_max_right _ _)⟩
  | case3 a ih => exact negated ih
  | case4 e _ _ _ => simp

private theorem poles_ofTally_le {t : Tally (List Expr)} (ht : ∀ p ∈ t, (divisors P false v).total p.1 ≤ n) :
    (ofTally t).poles P ≤ n := by
  have sum_le {es : List Expr} (hes : ∀ e ∈ es, e.poles P ≤ n) : (sum es).poles P ≤ n := by
    cases es with
    | nil => exact Nat.zero_le _
    | cons e rest =>
      rw [List.forall_mem_cons] at hes
      exact foldl_closed (P := fun e => e.poles P ≤ n) max_le hes.1 hes.2
  simp only [ofTally, List.partition_eq_filter_filter]
  refine sum_le (List.forall_mem_append.mpr ⟨?_, ?_⟩)
  · rw [List.forall_mem_map]
    intro p hp
    have bound := ht p (List.mem_filter.mp (List.mem_filter.mp hp).1).1
    exact (divisor_scale_le P false p.2 _).trans ((divisor_product_le P false v p.1).trans bound)
  · rw [List.forall_mem_map]
    exact fun p _ => Nat.zero_le n

theorem poles_add_le (hx : x.IsRationalIn v) (hy : y.IsRationalIn v) :
    (add x y).poles P ≤ max (x.poles P) (y.poles P) := by
  have closed := hereditary_isRationalIn v
  refine poles_ofTally_le P ((divisors P false v).total_collect_le ?_)
  exact List.forall_mem_append.mpr
    ⟨fun t ht => ⟨closed.terms hx t ht, (poles_terms_le P x t ht).trans (Nat.le_max_left _ _)⟩,
      fun t ht => ⟨closed.terms hy t ht, (poles_terms_le P y t ht).trans (Nat.le_max_right _ _)⟩⟩

theorem poles_sub_le (hx : x.IsRationalIn v) (hy : y.IsRationalIn v) :
    (sub x y).poles P ≤ max (x.poles P) (y.poles P) :=
  (poles_add_le P hx ((hereditary_isRationalIn v).neg hy)).trans
    (max_le_max_left _ (divisor_neg_le P false y))

/-! ### Products and quotients -/

private theorem poles_mulPlain_le (hx : x.IsRationalIn v) (hy : y.IsRationalIn v) :
    (mulPlain x y).poles P ≤ x.poles P + y.poles P := by
  rw [mulPlain.eq_def]
  split
  · exact Nat.zero_le _
  · split_ifs
    · exact Nat.zero_le _
    · exact Nat.le_add_left _ _
    · exact Nat.le_add_right _ _
    · exact (divisor_scale_le P false _ _).trans
        (divisor_splitCoeff_le P false (e := .mul x y) ⟨hx, hy⟩)

private theorem poles_mulRight_le (hx : x.IsRationalIn v) (hy : y.IsRationalIn v) :
    (mulRight x y).poles P ≤ x.poles P + y.poles P := by
  have closed := hereditary_isRationalIn v
  fun_induction mulRight x y with
  | case1 a b _ iha ihb =>
    have sum := poles_add_le P (closed.mulRight hx hy.1) (closed.mulRight hx hy.2)
    have left := iha hy.1
    have right := ihb hy.2
    change _ ≤ x.poles P + max (a.poles P) (b.poles P)
    omega
  | case2 a b _ => exact le_rfl
  | case3 a b _ iha ihb =>
    have sum := poles_sub_le P (closed.mulRight hx hy.1) (closed.mulRight hx hy.2)
    have left := iha hy.1
    have right := ihb hy.2
    change _ ≤ x.poles P + max (a.poles P) (b.poles P)
    omega
  | case4 a b _ => exact le_rfl
  | case5 y _ _ => exact poles_mulPlain_le P hx hy

theorem poles_mul_le (hx : x.IsRationalIn v) (hy : y.IsRationalIn v) :
    (mul x y).poles P ≤ x.poles P + y.poles P := by
  have closed := hereditary_isRationalIn v
  fun_induction mul x y with
  | case1 a b _ iha ihb =>
    have sum := poles_add_le P (closed.mul hx.1 hy) (closed.mul hx.2 hy)
    have left := iha hx.1
    have right := ihb hx.2
    change _ ≤ max (a.poles P) (b.poles P) + y.poles P
    omega
  | case2 a b _ => exact le_rfl
  | case3 a b _ iha ihb =>
    have sum := poles_sub_le P (closed.mul hx.1 hy) (closed.mul hx.2 hy)
    have left := iha hx.1
    have right := ihb hx.2
    change _ ≤ max (a.poles P) (b.poles P) + y.poles P
    omega
  | case4 a b _ => exact le_rfl
  | case5 x _ _ => exact poles_mulRight_le P hx hy

theorem poles_div_le (hx : x.IsRationalIn v) (hy : y.IsRationalIn v) :
    (div x y).poles P ≤ x.poles P + y.zeros P := by
  have closed := hereditary_isRationalIn v
  have scaled (q : Rat) {e : Expr} (he : e.IsRationalIn v) : (mul (.const q) e).poles P ≤ e.poles P :=
    (poles_mul_le P (closed.const q) he).trans (Nat.zero_add _).le
  have plain : (divPlain x y).poles P ≤ x.poles P + y.zeros P := by
    have numer := divisor_splitCoeff_le P false hx
    have denom := divisor_splitCoeff_le P true hy
    simp only [divPlain]
    split_ifs
    · exact le_rfl
    · exact Nat.zero_le _
    · exact (scaled _ (closed.splitCoeff hx)).trans (numer.trans (Nat.le_add_right _ _))
    · exact (scaled _ (closed.div_iff.mpr ⟨closed.splitCoeff hx, closed.splitCoeff hy⟩)).trans
        (Nat.add_le_add numer denom)
  rw [div.eq_def]
  split
  · split_ifs
    · exact le_rfl
    · exact Nat.zero_le _
  · split_ifs
    · exact Nat.zero_le _
    · exact Nat.le_add_right _ _
    · exact plain

end Simplify

end Tutor
