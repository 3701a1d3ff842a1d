import Tutor.Proofs.Number.Binary64
import Tutor.Proofs.Roots.Exact

/-!
The order of the roots. They are gathered part by part and put into order by their doubles alone, with a
sort that keeps the order of equal ones. So the list ascends as soon as the doubles are in the order of
the roots. Rational roots are rounded without change of order, and those of one multiplicity are found in
ascending order, so two of them come out the wrong way round exactly if they have the same double and the
smaller one has the larger multiplicity.
-/

set_option autoImplicit false
set_option relaxedAutoImplicit false

open scoped Polynomial

namespace Tutor

open Number (nearestFloat totalOrderKey totalOrderKey_nearestFloat_mono
  totalOrderKey_nearestFloat_neg_iff nearestFloat_eq_of_totalOrderKey_eq)

/-- A stable sort: of two items that stand as high as each other, the earlier one stays first. -/
private theorem pairwise_mergeSort_of_pairwise {α : Type} {R : α → α → Prop} (le : α → α → Bool)
    (trans : ∀ a b c, le a b → le b c → le a c) (total : ∀ a b, le a b || le b a) {l : List α}
    (h : l.Pairwise R) : (l.mergeSort le).Pairwise fun a b => le a b ∧ (le b a → R a b) := by
  induction l with
  | nil =>
    rw [List.mergeSort_nil]
    exact .nil
  | cons a l ih =>
    obtain ⟨hR, hl⟩ := List.pairwise_cons.mp h
    obtain ⟨l₁, l₂, whole, rest, before⟩ := List.mergeSort_cons trans total a l
    have sorted := List.pairwise_mergeSort trans total (a :: l)
    have others := ih hl
    rw [rest, List.pairwise_append] at others
    rw [whole, List.pairwise_append, List.pairwise_cons] at sorted
    rw [whole, List.pairwise_append, List.pairwise_cons]
    have later : ∀ b ∈ l₂, b ∈ l := by
      intro b hb
      have sorted : b ∈ l.mergeSort le := rest ▸ List.mem_append_right l₁ hb
      exact List.mem_mergeSort.mp sorted
    refine ⟨others.1, ⟨fun b hb => ⟨sorted.2.1.1 b hb, fun _ => hR b (later b hb)⟩, others.2.1⟩, ?_⟩
    intro b hb c hc
    refine ⟨sorted.2.2 b hb c hc, fun back => ?_⟩
    rcases List.mem_cons.mp hc with rfl | hc
    · exact absurd back (by simpa using before b hb)
    · exact (others.2.2 b hb c hc).2 back

/-! ### The order within a part -/

namespace RealRoot

/-- Of two rational roots, the first one is zero or less than the second one. -/
def RationalsAscend (x y : RealRoot) : Prop :=
  ∀ q q' : Rat, x.expr.number = q → y.expr.number = q' → q = 0 ∨ q < q'

private theorem number_le_of_ofQuadratic (p : Poly) :
    (ofQuadratic p).Pairwise fun x y => x.expr.number ≤ y.expr.number := by
  unfold ofQuadratic
  extract_lets a b d center
  split_ifs with negative
  · exact .nil
  · obtain ⟨⟨s, r⟩, hs⟩ : ∃ parts, Number.splitSquare (d.num.natAbs * d.den) = parts := ⟨_, rfl⟩
    rw [hs]
    dsimp only
    have nonneg : 0 ≤ (mkRat s d.den / (2 * a)).abs := Rat.abs_nonneg
    generalize (mkRat s d.den / (2 * a)).abs = offset at nonneg ⊢
    split_ifs
    · rw [List.pairwise_pair, number_ofRat, number_ofRat, Rat.cast_le]
      linarith
    · rw [List.pairwise_pair, number_ofSurd, number_ofSurd]
      have : (0 : ℝ) ≤ offset * √r := mul_nonneg (mod_cast nonneg) (Real.sqrt_nonneg _)
      push_cast
      linarith

end RealRoot

namespace Poly

variable {p : Poly} {roots : List RealRoot}

private theorem rationalsAscend_distinctRoots (hp : Squarefree p.toPolynomial) (h : p.distinctRoots = .ok roots) :
    roots.Pairwise RealRoot.RationalsAscend := by
  refine distinctRoots_induction (motive := fun _ roots => roots.Pairwise RealRoot.RationalsAscend)
    ?quadratic ?low ?split hp h
  case quadratic =>
    intro p three hp
    have apart := List.pairwise_map.mp (RealRoot.rootsOf_ofQuadratic three hp).nodup
    rw [List.pairwise_map] at apart
    refine ((RealRoot.number_le_of_ofQuadratic p).and apart).imp ?_
    rintro x y ⟨le, ne⟩ q q' hq hq'
    rw [hq, hq'] at le ne
    exact .inr (by exact_mod_cast lt_of_le_of_ne le ne)
  case low =>
    intro p _ _
    cases p.linearRoot? with
    | none => exact .nil
    | some r => exact List.pairwise_singleton _ _
  case split =>
    intro p r q others hr hsplit hp hothers rest
    refine List.pairwise_cons.mpr ⟨?_, rest⟩
    intro y hy s s' hs hs'
    obtain rfl : r = s := Rat.cast_injective hs
    rw [hsplit, squarefree_mul_iff] at hp
    have root := eval_eq_zero_of_rootsOf (rootsOf_distinctRoots hp.2.2 hothers)
      (List.mem_map_of_mem hy) hs'
    have root' : p.eval s' = 0 := by
      rw [← eval_toPolynomial, hsplit, Polynomial.eval_mul, eval_toPolynomial, root, mul_zero]
    have other : r ≠ s' := by
      rintro rfl
      exact not_isRoot_of_isCoprime hp.1.isCoprime (Polynomial.root_X_sub_C.mpr rfl)
        (isRoot_toPolynomial.mpr root)
    exact (rationalRoot?_le hr).imp_right fun least => lt_of_le_of_ne (least s' root') other

/-! ### The order of all roots -/

/-- Of two rational roots, the first one has the smaller multiplicity, or with the same multiplicity is
zero or less than the second one. -/
def FoundInOrder (p : Poly) (x y : RealRoot) : Prop :=
  ∀ q q' : Rat, x.expr.number = q → y.expr.number = q' →
    p.toPolynomial.rootMultiplicity q < p.toPolynomial.rootMultiplicity q' ∨
      p.toPolynomial.rootMultiplicity q = p.toPolynomial.rootMultiplicity q' ∧ (q = 0 ∨ q < q')

private theorem foundInOrder_parts {parts : List (Poly × Nat)}
    (hfree : ∀ f ∈ parts, Squarefree f.1.toPolynomial)
    (hascending : parts.Pairwise fun f f' => f.2 < f'.2)
    (hmultiplicity : ∀ f ∈ parts, ∀ q, f.1.eval q = 0 → p.toPolynomial.rootMultiplicity q = f.2)
    (h : (parts.flatMapM fun (part, _) => part.distinctRoots) = .ok roots) :
    roots.Pairwise p.FoundInOrder := by
  have found {f : Poly × Nat} {xs : List RealRoot} {x : RealRoot} {q : Rat} (hf : f ∈ parts)
      (hxs : f.1.distinctRoots = .ok xs) (hx : x ∈ xs) (hq : x.expr.number = q) :
      p.toPolynomial.rootMultiplicity q = f.2 :=
    hmultiplicity f hf q (eval_eq_zero_of_rootsOf (rootsOf_distinctRoots (hfree f hf) hxs)
      (List.mem_map_of_mem hx) hq)
  induction parts generalizing roots with
  | nil =>
    obtain rfl := Except.ok.inj h
    exact .nil
  | cons f parts ih =>
    obtain ⟨first, others, hfirst, hothers, rfl⟩ := flatMapM_cons_eq_ok h
    obtain ⟨hfree₁, hfree₂⟩ := List.forall_mem_cons.mp hfree
    obtain ⟨hascending₁, hascending₂⟩ := List.pairwise_cons.mp hascending
    refine List.pairwise_append.mpr ⟨?_, ?_, ?_⟩
    · refine (rationalsAscend_distinctRoots hfree₁ hfirst).imp_of_mem ?_
      intro x y hx hy ascend q q' hq hq'
      refine .inr ⟨?_, ascend q q' hq hq'⟩
      rw [found List.mem_cons_self hfirst hx hq, found List.mem_cons_self hfirst hy hq']
    · exact ih hfree₂ hascending₂ (List.forall_mem_cons.mp hmultiplicity).2 hothers
        fun hf => found (List.mem_cons_of_mem _ hf)
    · intro x hx y hy q q' hq hq'
      obtain ⟨f', hf', others', hothers', hy⟩ := exists_part_of_mem hothers hy
      refine .inl ?_
      rw [found List.mem_cons_self hfirst hx hq, found (List.mem_cons_of_mem _ hf') hothers' hy hq']
      exact hascending₁ f' hf'

private theorem foundInOrder_gatheredRoots (hp : p ≠ 0) (h : p.gatheredRoots = .ok roots) :
    roots.Pairwise p.FoundInOrder := by
  have hp' : p.toPolynomial ≠ 0 := mt eq_zero_iff.mpr hp
  have parts := squareFreeParts_squareFree hp'
  refine foundInOrder_parts parts.squarefree parts.ascending ?_ h
  intro f hf q hq
  exact parts.rootMultiplicity_eq hp' hf (isRoot_toPolynomial.mpr hq)

private theorem pairwise_sorted (hp : p ≠ 0) (h : p.gatheredRoots = .ok roots) :
    (roots.mergeSort fun a b => totalOrderKey a.approx ≤ totalOrderKey b.approx).Pairwise fun x y =>
      totalOrderKey x.approx ≤ totalOrderKey y.approx ∧
        (totalOrderKey y.approx ≤ totalOrderKey x.approx → p.FoundInOrder x y) := by
  have stable := pairwise_mergeSort_of_pairwise
    (fun a b : RealRoot => decide (totalOrderKey a.approx ≤ totalOrderKey b.approx))
    (fun a b c hab hbc => decide_eq_true ((of_decide_eq_true hab).trans (of_decide_eq_true hbc)))
    (fun a b => by
      rw [Bool.or_eq_true, decide_eq_true_iff, decide_eq_true_iff]
      exact le_total _ _)
    (foundInOrder_gatheredRoots hp h)
  simpa only [decide_eq_true_iff] using stable

private theorem number_lt_of_sorted {es : List Expr} (hp : p ≠ 0) (h : p.realRoots = .ok es)
    (hroots : p.gatheredRoots = .ok roots)
    (apart : ∀ x ∈ roots, ∀ y ∈ roots, x.expr.number < y.expr.number →
      totalOrderKey x.approx < totalOrderKey y.approx) :
    es.Pairwise fun e e' => e.number < e'.number := by
  have distinct := List.pairwise_map.mp (rootsOf_realRoots hp h).nodup
  obtain ⟨roots', hroots', rfl⟩ := eq_map_mergeSort_of_realRoots hp h
  obtain rfl := Except.ok.inj (hroots.symm.trans hroots')
  rw [List.pairwise_map] at distinct ⊢
  refine ((pairwise_sorted hp hroots).and distinct).imp_of_mem ?_
  rintro x y hx hy ⟨⟨le, -⟩, ne⟩
  rw [List.mem_mergeSort] at hx hy
  by_contra! greater
  exact absurd (apart y hy x hx (lt_of_le_of_ne greater (Ne.symm ne))) (not_lt.mpr le)

/-- The order of rational roots: by their doubles, those with the same double by multiplicity, and those
with the same multiplicity by value. -/
def ComesBefore (p : Poly) (q q' : Rat) : Prop :=
  nearestFloat q ≠ nearestFloat q' ∧ q < q' ∨
    nearestFloat q = nearestFloat q' ∧
      (p.toPolynomial.rootMultiplicity q < p.toPolynomial.rootMultiplicity q' ∨
        p.toPolynomial.rootMultiplicity q = p.toPolynomial.rootMultiplicity q' ∧ q < q')

private theorem comesBefore_of_sorted {es : List Expr} (hp : p ≠ 0) (h : p.realRoots = .ok es) :
    es.Pairwise fun (e e' : Expr) => ∀ q q' : Rat, e.number = q → e'.number = q' →
      p.ComesBefore q q' := by
  have distinct := List.pairwise_map.mp (rootsOf_realRoots hp h).nodup
  obtain ⟨roots, hroots, rfl⟩ := eq_map_mergeSort_of_realRoots hp h
  rw [List.pairwise_map] at distinct ⊢
  refine ((pairwise_sorted hp hroots).and distinct).imp_of_mem ?_
  rintro x y hx hy ⟨⟨le, tied⟩, ne⟩ q q' hq hq'
  rw [List.mem_mergeSort] at hx hy
  have tied := fun back => tied back q q' hq hq'
  rw [hq, hq', Ne, Rat.cast_inj] at ne
  rw [(exact_gatheredRoots hp hroots x hx).eq_ofRat hq, (exact_gatheredRoots hp hroots y hy).eq_ofRat hq']
    at le tied
  change totalOrderKey (nearestFloat q) ≤ totalOrderKey (nearestFloat q') at le
  change totalOrderKey (nearestFloat q') ≤ totalOrderKey (nearestFloat q) → _ at tied
  by_cases same : nearestFloat q = nearestFloat q'
  · refine .inr ⟨same, (tied (by rw [same])).imp_right fun equal => ⟨equal.1, ?_⟩⟩
    rcases equal.2 with rfl | less
    · -- a negative number has not the double of zero
      refine lt_of_le_of_ne (not_lt.mp fun negative => ?_) ne
      have key := totalOrderKey_nearestFloat_neg_iff.mpr negative
      rw [← same, totalOrderKey_nearestFloat_neg_iff] at key
      exact lt_irrefl _ key
    · exact less
  · refine .inl ⟨same, lt_of_not_ge fun ge => same (nearestFloat_eq_of_totalOrderKey_eq ?_)⟩
    exact le.antisymm (totalOrderKey_nearestFloat_mono ge)

instance : DecidableEq RealRoot := fun x y =>
  decidable_of_iff (x.expr = y.expr ∧ x.approx = y.approx) (by cases x; cases y; simp)

private theorem realRoots_of_sorted (hroots : p.gatheredRoots = .ok roots)
    (sorted : roots.Pairwise fun x y => totalOrderKey x.approx ≤ totalOrderKey y.approx) :
    p.realRoots = .ok (dropRepeats (roots.map RealRoot.expr)) := by
  change p.gatheredRoots >>= _ = _
  refine bind_eq_ok.mpr ⟨roots, hroots, ?_⟩
  rw [List.mergeSort_of_pairwise (sorted.imp decide_eq_true)]
  rfl

/-- The list of the real roots ascends wherever the doubles of the roots are in the order of the roots, and
of any two rational roots the one that comes first is determined by their doubles, then by their
multiplicities and only then by their values. -/
theorem realRoots_ascending_up_to_rounding {es : List Expr} (h : p.realRoots = .ok es) :
    (∃ roots, p.gatheredRoots = .ok roots ∧ (roots.map RealRoot.expr).Perm es ∧
      ((∀ x ∈ roots, ∀ y ∈ roots, x.expr.number < y.expr.number →
          totalOrderKey x.approx < totalOrderKey y.approx) →
        es.Pairwise fun (e e' : Expr) => e.number < e'.number)) ∧
      es.Pairwise fun (e e' : Expr) => ∀ q q' : Rat, e.number = q → e'.number = q' →
        p.ComesBefore q q' := by
  by_cases hp : p = 0
  · have none : p.gatheredRoots = .ok [] := by rw [hp]; rfl
    obtain rfl := Except.ok.inj ((realRoots_of_sorted none .nil).symm.trans h)
    rw [List.map_nil, dropRepeats_of_nodup .nil]
    exact ⟨⟨[], none, .nil, fun _ => .nil⟩, .nil⟩
  · obtain ⟨roots, hroots, sorted⟩ := perm_of_realRoots hp h
    exact ⟨⟨roots, hroots, sorted, number_lt_of_sorted hp h hroots⟩, comesBefore_of_sorted hp h⟩

/-- The roots of `(x - 1)² (x² - x - 6)` come in ascending order, though the double root 1 is found after
the simple roots -2 and 3. -/
theorem realRoots_ascending_up_to_rounding_double : ∃ es : List Expr,
    (linear 1 * linear 1 * ofCoeffs [-6, -1, 1]).realRoots = .ok es ∧
      es.Pairwise fun (e e' : Expr) => e.number < e'.number := by
  have answered : (linear 1 * linear 1 * ofCoeffs [-6, -1, 1]).realRoots.isOk = true := by
    decide +kernel
  have gathered : (linear 1 * linear 1 * ofCoeffs [-6, -1, 1]).gatheredRoots =
      .ok [.ofRat (-2), .ofRat 3, .ofRat 1] := by decide +kernel
  have keys : totalOrderKey (RealRoot.ofRat (-2)).approx < totalOrderKey (RealRoot.ofRat 1).approx ∧
      totalOrderKey (RealRoot.ofRat 1).approx < totalOrderKey (RealRoot.ofRat 3).approx := by
    decide +kernel
  cases h : (linear 1 * linear 1 * ofCoeffs [-6, -1, 1]).realRoots with
  | error failure => rw [h] at answered; cases answered
  | ok es =>
    obtain ⟨⟨roots, hroots, -, ascending⟩, -⟩ := realRoots_ascending_up_to_rounding h
    obtain rfl := Except.ok.inj (gathered.symm.trans hroots)
    refine ⟨es, rfl, ascending ?_⟩
    simp only [List.forall_mem_cons, RealRoot.number_ofRat]
    norm_num [keys.1, keys.2, keys.1.trans keys.2]

/-- `(x - 10¹⁸)² (x - 10¹⁸ - 1)` has its larger root first: both have the same double, and the simple root
is found before the double one. -/
theorem realRoots_descending :
    let p : Poly := linear (10 ^ 18) * linear (10 ^ 18) * linear (10 ^ 18 + 1)
    ∃ es, p.realRoots = .ok es ∧ ¬es.Pairwise fun (e e' : Expr) => e.number < e'.number := by
  intro p
  have gathered : p.gatheredRoots = .ok [.ofRat (10 ^ 18 + 1), .ofRat (10 ^ 18)] := by decide +kernel
  have sorted : [RealRoot.ofRat (10 ^ 18 + 1), .ofRat (10 ^ 18)].Pairwise fun x y =>
      totalOrderKey x.approx ≤ totalOrderKey y.approx := by decide +kernel
  have different : [Expr.const (10 ^ 18 + 1), .const (10 ^ 18)].Nodup := by decide +kernel
  refine ⟨_, realRoots_of_sorted gathered sorted, ?_⟩
  change ¬(dropRepeats [Expr.const (10 ^ 18 + 1), .const (10 ^ 18)]).Pairwise _
  rw [dropRepeats_of_nodup different, List.pairwise_pair, not_lt]
  change (((10 ^ 18 : Rat)) : ℝ) ≤ ((10 ^ 18 + 1 : Rat) : ℝ)
  rw [Rat.cast_le]
  exact le_add_of_nonneg_right zero_le_one

end Poly

end Tutor
