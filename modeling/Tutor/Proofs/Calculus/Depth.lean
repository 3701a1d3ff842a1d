import Tutor.Proofs.Calculus.LHopital

/-!
How often l'Hôpital's rule is used. An expression has a limit without the rule, or the rule replaces it by
the quotient of the derivatives. So the number of uses after which there is an answer, and the answer,
depend on the expression and the point alone; a bound on the uses only decides whether the search gets that
far.
-/

set_option autoImplicit false
set_option relaxedAutoImplicit false

namespace Tutor.Expr

variable {e next : Expr} {v : String} {p : Rat} {l : LimitValue} {k k' : Nat}

def directLimit? (e : Expr) (v : String) (p : Rat) : Option LimitValue :=
  e.simplifyFully.valueAt? v p <|> (RationalFunction.ofExpr? v e.simplifyFully).map (·.limitAt p)

/-- The limit that is found with so many uses of l'Hôpital's rule: the rule is used only where there is no
limit without it. -/
inductive LimitAfter (v : String) (p : Rat) : Nat → Expr → LimitValue → Prop
  | direct {e : Expr} {l : LimitValue} (found : e.directLimit? v p = some l) : LimitAfter v p 0 e l
  | derived {n : Nat} {e next : Expr} {l : LimitValue} (missing : e.directLimit? v p = none)
      (applied : e.lHopital? v p = some next) (rest : LimitAfter v p n next l) : LimitAfter v p (n + 1) e l

private theorem directLimit?_eq_none_iff : e.directLimit? v p = none ↔
    e.simplifyFully.valueAt? v p = none ∧ RationalFunction.ofExpr? v e.simplifyFully = none := by
  rw [directLimit?, Option.orElse_eq_orElse, Option.orElse_eq_or, Option.or_eq_none_iff,
    Option.map_eq_none_iff]

private theorem limitFrom?_of_found (found : e.directLimit? v p = some l) (k : Nat) :
    limitFrom? v p e k = some l := by
  rw [limitFrom?.eq_def]
  cases value : e.simplifyFully.valueAt? v p with
  | some there => simpa [directLimit?, value] using found
  | none =>
    cases rational : RationalFunction.ofExpr? v e.simplifyFully with
    | some f => simpa [directLimit?, value, rational] using found
    | none => rw [directLimit?_eq_none_iff.mpr ⟨value, rational⟩] at found; cases found

private theorem limitFrom?_zero_of_missing (missing : e.directLimit? v p = none) :
    limitFrom? v p e 0 = none := by
  obtain ⟨value, rational⟩ := directLimit?_eq_none_iff.mp missing
  rw [limitFrom?]
  simp only [value, rational]

private theorem limitFrom?_succ_of_missing (missing : e.directLimit? v p = none) :
    limitFrom? v p e (k + 1) = (e.lHopital? v p).bind fun next => limitFrom? v p next k := by
  obtain ⟨value, rational⟩ := directLimit?_eq_none_iff.mp missing
  rw [limitFrom?]
  simp only [value, rational]
  rfl

private theorem limitAfter_of_found {found : LimitValue} (direct : e.directLimit? v p = some found)
    (h : limitFrom? v p e k = some l) : LimitAfter v p 0 e l := by
  rw [limitFrom?_of_found direct k] at h
  obtain rfl := Option.some.inj h
  exact .direct direct

/-- A search finds the limits that need at most as many uses of the rule as it may make. -/
private theorem limitFrom?_eq_some_iff : limitFrom? v p e k = some l ↔ ∃ n ≤ k, LimitAfter v p n e l := by
  constructor
  · intro h
    induction k generalizing e with
    | zero =>
      cases direct : e.directLimit? v p with
      | none => rw [limitFrom?_zero_of_missing direct] at h; cases h
      | some found => exact ⟨0, Nat.le_refl 0, limitAfter_of_found direct h⟩
    | succ k ih =>
      cases direct : e.directLimit? v p with
      | none =>
        rw [limitFrom?_succ_of_missing direct, Option.bind_eq_some_iff] at h
        obtain ⟨next, applied, h⟩ := h
        obtain ⟨n, hn, rest⟩ := ih h
        exact ⟨n + 1, Nat.succ_le_succ hn, .derived direct applied rest⟩
      | some found => exact ⟨0, Nat.zero_le _, limitAfter_of_found direct h⟩
  · -- here the induction is on the uses that are needed, whatever bound lies above them
    rintro ⟨n, hn, after⟩
    induction after generalizing k with
    | direct found => exact limitFrom?_of_found found k
    | derived missing applied rest ih =>
      obtain ⟨k, rfl⟩ := Nat.exists_eq_add_of_le' hn
      rw [← Nat.add_assoc, limitFrom?_succ_of_missing missing, applied]
      exact ih (Nat.le_add_left _ _)

private theorem limit_eq_ok_iff : e.limit v p k = .ok l ↔ ∃ n ≤ k, LimitAfter v p n e l := by
  rw [← limitFrom?_eq_some_iff, limit]
  cases limitFrom? v p e k <;> simp

/-- Allowing more uses of l'Hôpital's rule keeps every limit that was found with fewer. -/
theorem limit_mono_depth (h : e.limit v p k = .ok l) (hk : k ≤ k') : e.limit v p k' = .ok l := by
  obtain ⟨n, hn, after⟩ := limit_eq_ok_iff.mp h
  exact limit_eq_ok_iff.mpr ⟨n, hn.trans hk, after⟩

/-- One use of the rule finds that `(1 / x) sin x` tends to one at zero, which it does not without the rule;
and so do all larger bounds. -/
theorem limit_mono_depth_sine :
    let e : Expr := .mul (.div .one (.var "x")) (.sin (.var "x"))
    e.limit "x" 0 0 = .error (.limitUnknown e "x" 0) ∧ e.limit "x" 0 1 = .ok (.finite .one) ∧
      ∀ k', 1 ≤ k' → e.limit "x" 0 k' = .ok (.finite .one) := by
  intro e
  have missing : e.directLimit? "x" 0 = none := by
    have simplified : e.simplifyFully = e := by
      rw [simplifyFully_eq_iterate]
      decide +kernel
    rw [directLimit?, simplified]
    decide +kernel
  have applied : e.lHopital? "x" 0 = some (.div (.cos (.var "x")) .one) := by
    rw [lHopital?, show (e.splitQuotient? <|> e.simplifyFully.splitQuotient?) = e.splitQuotient? from rfl]
    simp only [simplifiedValueAt?, simplifyFully_eq_iterate]
    decide +kernel
  have found : (Expr.div (.cos (.var "x")) .one).directLimit? "x" 0 = some (.finite .one) := by
    rw [directLimit?, simplifyFully_eq_iterate]
    decide +kernel
  have one_use : e.limit "x" 0 1 = .ok (.finite .one) :=
    limit_eq_ok_iff.mpr ⟨1, Nat.le_refl 1, .derived missing applied (.direct found)⟩
  refine ⟨?_, one_use, fun k' hk => limit_mono_depth one_use hk⟩
  rw [limit, limitFrom?_zero_of_missing missing]

end Tutor.Expr
