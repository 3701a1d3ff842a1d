import Tutor.Proofs.Calculus.Limit

/-!
Poles, told by rational values alone. On the right of a pole a rational function in lowest terms exceeds
every bound, or falls below every bound; which of the two is what the limit says.
-/

set_option autoImplicit false
set_option relaxedAutoImplicit false

namespace Tutor.RationalFunction

open Filter Topology

variable {f : RationalFunction} {p : Rat} {P Q : Rat → Prop}

/-- A property of all rational numbers on the right of a point that are close enough to it. -/
def JustRightOf (p : Rat) (P : Rat → Prop) : Prop := ∃ δ > 0, ∀ q, p < q → q < p + δ → P q

private theorem JustRightOf.of_eventually {R : ℝ → Prop} (h : ∀ᶠ t in 𝓝[>] (p : ℝ), R t) :
    JustRightOf p fun q => R q := by
  obtain ⟨u, hu, near⟩ := mem_nhdsGT_iff_exists_Ioo_subset.mp h
  obtain ⟨r, hpr, hru⟩ := exists_rat_btwn (Set.mem_Ioi.mp hu)
  refine ⟨r - p, sub_pos.mpr (by exact_mod_cast hpr), fun q hpq hqr => near ?_⟩
  rw [add_sub_cancel] at hqr
  exact ⟨by exact_mod_cast hpq, lt_trans (by exact_mod_cast hqr) hru⟩

theorem JustRightOf.mono (hP : JustRightOf p P) (h : ∀ q, P q → Q q) : JustRightOf p Q := by
  obtain ⟨δ, hδ, near⟩ := hP
  exact ⟨δ, hδ, fun q hpq hq => h q (near q hpq hq)⟩

private theorem JustRightOf.exists_and (hP : JustRightOf p P) (hQ : JustRightOf p Q) : ∃ q, P q ∧ Q q := by
  obtain ⟨δ, hδ, nearP⟩ := hP
  obtain ⟨ε, hε, nearQ⟩ := hQ
  obtain ⟨q, hpq, hq⟩ := exists_between (lt_add_of_pos_right p (lt_min hδ hε))
  have distance : q - p < min δ ε := sub_lt_iff_lt_add'.mpr hq
  have hqδ : q < p + δ := sub_lt_iff_lt_add'.mp (distance.trans_le (min_le_left δ ε))
  have hqε : q < p + ε := sub_lt_iff_lt_add'.mp (distance.trans_le (min_le_right δ ε))
  exact ⟨q, nearP q hpq hqδ, nearQ q hpq hqε⟩

theorem valueAt_ratCast (f : RationalFunction) (q : Rat) :
    f.valueAt q = (f.numer.eval q / f.denom.eval q : Rat) := by
  rw [valueAt, Poly.valueAt_ratCast, Poly.valueAt_ratCast, Rat.cast_div]

private theorem denom_ne_zero_of_quotient_ne_zero {q : Rat} (h : f.numer.eval q / f.denom.eval q ≠ 0) :
    f.denom.eval q ≠ 0 := by
  intro h0
  rw [h0, div_zero] at h
  exact h rfl

private theorem exceeds_of_tendsto (h : Tendsto f.valueAt (𝓝[>] (p : ℝ)) atTop) (M : Rat) :
    JustRightOf p fun q => f.denom.eval q ≠ 0 ∧ M < f.numer.eval q / f.denom.eval q := by
  have grown := JustRightOf.of_eventually (h.eventually_gt_atTop ((max M 0 : Rat) : ℝ))
  refine grown.mono fun q large => ?_
  rw [valueAt_ratCast, Rat.cast_lt] at large
  have positive : 0 < f.numer.eval q / f.denom.eval q := (le_max_right M 0).trans_lt large
  exact ⟨denom_ne_zero_of_quotient_ne_zero positive.ne', (le_max_left M 0).trans_lt large⟩

private theorem falls_below_of_tendsto (h : Tendsto f.valueAt (𝓝[>] (p : ℝ)) atBot) (M : Rat) :
    JustRightOf p fun q => f.denom.eval q ≠ 0 ∧ f.numer.eval q / f.denom.eval q < -M := by
  have fallen := JustRightOf.of_eventually (h.eventually_lt_atBot ((min (-M) 0 : Rat) : ℝ))
  refine fallen.mono fun q small => ?_
  rw [valueAt_ratCast, Rat.cast_lt] at small
  have negative : f.numer.eval q / f.denom.eval q < 0 := small.trans_le (min_le_right (-M) 0)
  exact ⟨denom_ne_zero_of_quotient_ne_zero negative.ne, small.trans_le (min_le_left (-M) 0)⟩

private theorem not_exceeds_and_falls_below
    (above : ∀ M, JustRightOf p fun q => f.denom.eval q ≠ 0 ∧ M < f.numer.eval q / f.denom.eval q)
    (below : ∀ M, JustRightOf p fun q => f.denom.eval q ≠ 0 ∧ f.numer.eval q / f.denom.eval q < -M) :
    False := by
  obtain ⟨q, ⟨-, positive⟩, -, negative⟩ := (above 0).exists_and (below 0)
  rw [neg_zero] at negative
  exact lt_asymm positive negative

/-- The limit worked out for a rational function in lowest terms, told by its values at rational points. It
is the value at a point that is no pole. At a pole it is one of the two infinities, the one towards which
the values just right of the pole go; and the power of the distance divides the denominator, so that the
cofactor is never missing. The last square of this power, which is not used, wraps around only at a pole of an
order of 64 bits. -/
theorem limitAt_told_by_values (hf : f.InLowestTerms) (p : Rat) :
    (f.denom.eval p ≠ 0 → f.limitAt p = .finite (.const (f.numer.eval p / f.denom.eval p))) ∧
    (f.denom.eval p = 0 →
      (f.limitAt p = .plusInfinity ∨ f.limitAt p = .minusInfinity) ∧
      (f.limitAt p = .plusInfinity ↔
        ∀ M, JustRightOf p fun q => f.denom.eval q ≠ 0 ∧ M < f.numer.eval q / f.denom.eval q) ∧
      (f.limitAt p = .minusInfinity ↔
        ∀ M, JustRightOf p fun q => f.denom.eval q ≠ 0 ∧ f.numer.eval q / f.denom.eval q < -M) ∧
      ∃ c, f.denom.divExact? ((Poly.linear p).power (f.denom.multiplicity p)) = some c ∧
        c.eval p ≠ 0) ∧
    (f.limitFits p = true ↔ f.denom.multiplicity p < 2 ^ 63) := by
  have right := hf.isRightLimit_limitAt p
  refine ⟨fun h0 => if_neg h0, fun h0 => ?_, hf.limitFits_iff⟩
  obtain ⟨c, hc, -, nonzero, -⟩ := hf.exists_cofactor h0
  cases hl : f.limitAt p with
  | finite x =>
    rw [hl] at right
    exact absurd h0 right.1
  | plusInfinity =>
    rw [hl] at right
    have above := exceeds_of_tendsto right.2
    refine ⟨.inl rfl, ⟨fun _ => above, fun _ => rfl⟩, ⟨nofun, fun below => ?_⟩, c, hc, nonzero⟩
    exact (not_exceeds_and_falls_below above below).elim
  | minusInfinity =>
    rw [hl] at right
    have below := falls_below_of_tendsto right.2
    refine ⟨.inr rfl, ⟨nofun, fun above => ?_⟩, ⟨fun _ => below, fun _ => rfl⟩, c, hc, nonzero⟩
    exact (not_exceeds_and_falls_below above below).elim

/-- The quotient `(x - 3) / ((x - 1)² (x - 2))` has a double pole at one, where numerator and cofactor are
both negative: it grows beyond every bound. -/
theorem limitAt_told_by_values_double_pole :
    let f : RationalFunction := ⟨.linear 3, .linear 1 * .linear 1 * .linear 2⟩
    f.InLowestTerms ∧ f.denom.eval 1 = 0 ∧ f.limitAt 1 = .plusInfinity ∧
      ∀ M, JustRightOf 1 fun q => f.denom.eval q ≠ 0 ∧ M < f.numer.eval q / f.denom.eval q := by
  intro f
  have quotient : ofQuotient? f.numer f.denom = some f := by decide +kernel
  have lowest : f.InLowestTerms := (ofQuotient?_spec quotient).2.1.inLowestTerms
  have pole : f.denom.eval 1 = 0 := by decide +kernel
  have infinite : f.limitAt 1 = .plusInfinity := by decide +kernel
  obtain ⟨-, above, -⟩ := (limitAt_told_by_values lowest 1).2.1 pole
  exact ⟨lowest, pole, infinite, above.mp infinite⟩

end Tutor.RationalFunction
