import Tutor.Proofs.RationalMatrix.Determinant
import Tutor.Solve.Counting
import Tutor.Solve.Determinant
import Tutor.Verify

/-!
Certificates that are checked exactly. Determinants are computed again and counts are reduced again in
rational arithmetic, so that a determinant or a probability that was found is accepted with its own
certificate, and no other answer is.
-/

set_option autoImplicit false
set_option relaxedAutoImplicit false

namespace Tutor

namespace Verify

variable {s : Solution} {c : Certificate} {a : Answer} {steps : List String}

/-! ### What makes a verdict valid -/

def StepsShown (steps : List String) : Prop := steps ≠ [] ∧ ∀ step ∈ steps, Text.isBlankText step = false

private theorem issue?_stepsFinding_eq_none_iff : (stepsFinding steps).issue? = none ↔ StepsShown steps := by
  unfold stepsFinding StepsShown
  split_ifs with empty blank
  · simp [Finding.issue?, List.isEmpty_iff.mp empty]
  · obtain ⟨step, mem, hblank⟩ := List.any_eq_true.mp blank
    simp only [Finding.issue?, reduceCtorEq, false_iff, not_and, not_forall]
    exact fun _ => ⟨step, mem, by simp [hblank]⟩
  · simp only [Finding.issue?, true_iff]
    refine ⟨by simpa using empty, fun step mem => ?_⟩
    have none_blank := fun h => blank (List.any_eq_true.mpr ⟨step, mem, h⟩)
    simpa using none_blank

private theorem forall_issue?_answerFindings_iff :
    (∀ f ∈ answerFindings a, f.issue? = none) ↔ a ≠ .notAvailable := by
  unfold answerFindings
  split_ifs with missing <;> simp [missing, Finding.issue?]

/-- A solution with a certificate is valid if its steps can be shown, there is an answer, and no finding on
the certificate speaks against the answer. -/
theorem valid_consistency_iff (hc : s.certificate = some c) :
    (consistency (.ok s)).valid = true ↔ StepsShown s.steps ∧ s.answer ≠ .notAvailable ∧
      ∀ f ∈ certificateFindings c s.answer, f.issue? = none := by
  rw [consistency, valid_ofFindings_iff, findings, hc]
  simp only [List.cons_append, List.forall_mem_cons, List.forall_mem_append,
    issue?_stepsFinding_eq_none_iff, forall_issue?_answerFindings_iff]

/-- A certificate settles its answer: nothing speaks against that answer, and something against every
other one. -/
def Settles (c : Certificate) (answer : Answer) : Prop :=
  ∀ a, (∀ f ∈ certificateFindings c a, f.issue? = none) ↔ a = answer

private theorem valid_consistency_iff_of_settles (hc : s.certificate = some c) (settles : Settles c s.answer)
    (shown : StepsShown s.steps) (available : s.answer ≠ .notAvailable) (a : Answer) :
    (consistency (.ok { s with answer := a })).valid = true ↔ a = s.answer := by
  rw [valid_consistency_iff (s := { s with answer := a }) hc, settles a]
  constructor
  · exact fun h => h.2.2
  · rintro rfl
    exact ⟨shown, available, rfl⟩

/-! ### Determinants -/

private theorem recomputed_of_determinant {m : RationalMatrix} {d : Rat} (h : m.determinant = .ok d) :
    m.cofactorDeterminant = .ok d ∧ m.bareissDeterminant = .ok d := by
  by_cases square : m.rows = m.cols
  · obtain ⟨found, bareiss, cofactor⟩ := m.determinants_of_square square
    rw [found] at h
    rw [bareiss, cofactor, h]
    exact ⟨rfl, rfl⟩
  · rw [RationalMatrix.determinant, RationalMatrix.onSquare, if_neg square] at h
    cases h

private theorem issue?_determinantFinding_eq_none_iff {rows : List (List Int)} {m : RationalMatrix} {d : Rat}
    (hm : RationalMatrix.ofRows rows = .ok m) (hd : m.determinant = .ok d) (e : Expr) :
    (determinantFinding rows e).issue? = none ↔ e = .const d := by
  obtain ⟨cofactor, bareiss⟩ := recomputed_of_determinant hd
  have constant : e.const? = some d ↔ e = .const d := by
    cases e <;> simp [Expr.const?]
  unfold determinantFinding
  simp only [hm, cofactor, bareiss]
  split_ifs <;> simp_all [Finding.issue?]

private theorem settles_determinant {rows : List (List Int)} {m : RationalMatrix} {d : Rat}
    (hm : RationalMatrix.ofRows rows = .ok m) (hd : m.determinant = .ok d) :
    Settles (.determinant rows) (.value (.const d)) := by
  intro a
  cases a with
  | value e => simp [certificateFindings, issue?_determinantFinding_eq_none_iff hm hd]
  | _ => simp [certificateFindings, Finding.issue?]

/-! ### Probabilities -/

private theorem issue?_probabilityFinding_eq_none_iff {favorable total : Nat} (possible : 0 < total)
    (bounded : favorable ≤ total) (reported : Rat) :
    (probabilityFinding favorable total reported).issue? = none ↔
      reported = mkRat favorable total := by
  have share : (((favorable : Int) : Rat) / ((total : Int) : Rat)) = mkRat favorable total := by
    rw [Rat.mkRat_eq_div, Int.cast_natCast total]
  unfold probabilityFinding
  rw [share, if_neg (by omega), if_neg (by omega), eq_comm (a := reported)]
  split_ifs with same <;> simp [Finding.issue?, same]

private theorem settles_probability {favorable total : Nat} (possible : 0 < total) (bounded : favorable ≤ total) :
    Settles (.probability favorable total) (.probability (mkRat favorable total)) := by
  intro a
  cases a with
  | probability reported =>
    simp [certificateFindings, issue?_probabilityFinding_eq_none_iff possible bounded]
  | _ => simp [certificateFindings, Finding.issue?]

end Verify

/-! ### What the solvers find -/

namespace Solve

open Verify (StepsShown)

variable {text : String} {s : Solution} {lowered : List Char} {count : Count}

private theorem exists_of_determinant_eq_ok (h : determinant text = .ok s) :
    ∃ rows m d, RationalMatrix.ofRows rows = .ok m ∧ m.determinant = .ok d ∧
      s = ⟨["Parsed matrix", "Computed determinant"], .value (.const d), some (.determinant rows)⟩ := by
  unfold determinant at h
  split_ifs at h
  obtain ⟨found, -, h⟩ := bind_eq_ok.mp h
  obtain ⟨m, hm, h⟩ := bind_eq_ok.mp h
  obtain ⟨d, hd, h⟩ := bind_eq_ok.mp h
  exact ⟨_, m, d, orRefuse_eq_ok_iff.mp hm, orRefuse_eq_ok_iff.mp hd, (Except.ok.inj h).symm⟩

/-- There are outcomes, no more of them are favorable than there are, and the steps can be shown. -/
structure Count.Sound (count : Count) : Prop where
  possible : 0 < count.total
  bounded : count.favorable ≤ count.total
  shown : StepsShown count.steps

theorem isBlankText_append_of_left {a b : String} (h : Text.isBlankText a = false) :
    Text.isBlankText (a ++ b) = false := by
  simp only [Text.isBlankText, String.toList_append, List.all_append] at h ⊢
  rw [h, Bool.false_and]

/-- A count of an experiment, made by the first case that fits, is sound if every case is: it has a step
to show and no more favorable outcomes than there are. -/
private theorem sound_firstCase {title : String} {cases : List (List String × String × Nat)}
    {otherwise : String × Nat} {total : Nat} (possible : 0 < total)
    (titled : Text.isBlankText title = false)
    (fits : ∀ found ∈ otherwise :: cases.map Prod.snd,
      Text.isBlankText found.1 = false ∧ found.2 ≤ total) :
    let found := firstCase lowered cases otherwise
    Count.Sound ⟨[title, found.1], found.2, total⟩ := by
  intro found
  have mem : found ∈ otherwise :: cases.map Prod.snd := by
    unfold found firstCase
    split
    · rename_i keywords hit
      exact List.mem_cons_of_mem _ (List.mem_map_of_mem (List.mem_of_find?_eq_some hit))
    · exact List.mem_cons_self
  obtain ⟨shown, bounded⟩ := fits found mem
  refine ⟨possible, bounded, by simp, ?_⟩
  simp [titled, shown]

private theorem sound_coin (tosses : Nat) : (coin lowered tosses).Sound := by
  have possible : 1 ≤ Nat.pow 2 tosses := Nat.one_le_two_pow
  apply sound_firstCase possible
  · exact isBlankText_append_of_left (isBlankText_append_of_left (by decide))
  · simp only [List.map_cons, List.map_nil, List.forall_mem_cons]
    exact ⟨⟨by decide, possible⟩, ⟨by decide, possible⟩, ⟨by decide, possible⟩, by simp⟩

private theorem sound_die : (die lowered).Sound :=
  sound_firstCase (by decide) (by decide) (by decide)

private theorem sound_card : (card lowered).Sound :=
  sound_firstCase (by decide) (by decide) (by decide)

private theorem sound_of_count? (h : count? lowered = .ok (some count)) : count.Sound := by
  unfold count? at h
  split at h
  · split at h
    · rename_i tosses _
      split_ifs at h
      cases h
      exact sound_coin tosses
    · cases h
  · split_ifs at h
    · cases h
      exact sound_die
    · cases h
      exact sound_card
    · cases h

private theorem exists_of_probability_eq_ok (h : probability text = .ok s) (available : s.answer ≠ .notAvailable) :
    ∃ count : Count, count.Sound ∧ s = count.solution := by
  unfold probability at h
  obtain ⟨found, hfound, h⟩ := bind_eq_ok.mp h
  cases found with
  | none =>
    cases h
    exact absurd rfl available
  | some count =>
    cases h
    exact ⟨count, sound_of_count? hfound, rfl⟩

private theorem settles_of_exact (h : determinant text = .ok s ∨ probability text = .ok s ∧ s.answer ≠ .notAvailable) :
    StepsShown s.steps ∧ s.answer ≠ .notAvailable ∧
      ∃ c, s.certificate = some c ∧ Verify.Settles c s.answer := by
  rcases h with found | ⟨found, available⟩
  · obtain ⟨rows, m, d, hm, hd, rfl⟩ := exists_of_determinant_eq_ok found
    have shown : StepsShown ["Parsed matrix", "Computed determinant"] := ⟨by simp, by decide⟩
    exact ⟨shown, by simp, _, rfl, Verify.settles_determinant hm hd⟩
  · obtain ⟨count, sound, rfl⟩ := exists_of_probability_eq_ok found available
    refine ⟨⟨by simp [Count.solution], ?_⟩, available, _, rfl,
      Verify.settles_probability sound.possible sound.bounded⟩
    intro step mem
    rcases List.mem_append.mp mem with counted | final
    · exact sound.shown.2 step counted
    · rw [List.mem_singleton.mp final]
      exact isBlankText_append_of_left (by decide)

/-- A determinant or a probability that was found is valid, and with the same steps and certificate no
other answer is. -/
theorem exact_solution_valid
    (h : determinant text = .ok s ∨ probability text = .ok s ∧ s.answer ≠ .notAvailable) :
    (Verify.consistency (.ok s)).valid = true ∧
      ∀ a ≠ s.answer, (Verify.consistency (.ok { s with answer := a })).valid = false := by
  obtain ⟨shown, available, c, hc, settles⟩ := settles_of_exact h
  have valid_iff := Verify.valid_consistency_iff_of_settles hc settles shown available
  refine ⟨(valid_iff s.answer).mpr rfl, fun a other => ?_⟩
  exact Bool.eq_false_iff.mpr fun valid => other ((valid_iff a).mp valid)

/-- The first pivot is zero, so the rows are exchanged and the sign changes. -/
theorem exact_solution_valid_row_exchange :
    let s : Solution := ⟨["Parsed matrix", "Computed determinant"], .value (.const (-6)),
      some (.determinant [[0, 2], [3, 4]])⟩
    determinant "Determinant of [[0, 2], [3, 4]]" = .ok s ∧ (Verify.consistency (.ok s)).valid = true ∧
      ∀ a ≠ s.answer, (Verify.consistency (.ok { s with answer := a })).valid = false := by
  intro s
  have found : determinant "Determinant of [[0, 2], [3, 4]]" = .ok s := by decide +kernel
  exact ⟨found, exact_solution_valid (.inl found)⟩

end Solve

end Tutor
