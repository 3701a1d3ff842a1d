import Mathlib.Data.List.TakeWhile
import Tutor.Proofs.Text.Ascii
import Tutor.Proofs.Text.Search
import Tutor.Text.Blank
import Tutor.Text.Lowercase

/-!
The blanks around a text. Blanks are their own lower-case forms, and next to a sigma they count as the
end of the text, so trimming and lower case commute; a word without blanks occurs in a text exactly if
it occurs in the trimmed text.
-/

set_option autoImplicit false
set_option relaxedAutoImplicit false

namespace Tutor.Text

variable {c : Char} {cs blanks : List Char}

private theorem Ranges.has_eq_false_of_apart {ranges others : Ranges}
    (apart : ∀ r ∈ ranges, ∀ s ∈ others, r.2 < s.1 ∨ s.2 < r.1) (hc : ranges.has c = true) :
    others.has c = false := by
  rw [← Bool.not_eq_true, others.has_iff]
  rintro ⟨s, hs, first, last⟩
  obtain ⟨r, hr, least, most⟩ := (ranges.has_iff c).mp hc
  rcases apart r hr s hs with before | after <;> omega

/-! ### Lower case -/

/-- A character without case: it is its own lower-case form, and no letter is found beyond it. -/
def isCaseless (c : Char) : Bool :=
  c != 'Σ' && lowerChar c == [c] && !isCaseIgnorable c && !isCased c

/-- The code points that may have another lower-case form, without the steps within a run. -/
def loweredRanges : Ranges :=
  (0x41, 0x5A) :: (0x130, 0x130) :: lowerRuns.map fun run => (run.first, run.last)

private theorem lowerChar_of_not_lowered (h : loweredRanges.has c = false) : lowerChar c = [c] := by
  simp only [loweredRanges, Ranges.has, List.any_cons, List.any_map, Bool.or_eq_false_iff,
    Bool.and_eq_false_iff, decide_eq_false_iff_not, List.any_eq_false, Function.comp_apply,
    Bool.and_eq_true, decide_eq_true_eq] at h
  obtain ⟨upper, dotted, runs⟩ := h
  have none_covers : lowerRuns.find? (fun run =>
      run.first ≤ c.toNat && c.toNat ≤ run.last && (c.toNat - run.first) % run.step == 0) = none := by
    refine List.find?_eq_none.mpr fun run mem covers => runs run mem ?_
    simpa using (Bool.and_eq_true_iff.mp covers).1
  have own : c.toLower = c := dif_neg fun letter => by
    have := toNat_of_isUpper (decide_eq_true letter)
    omega
  rw [lowerChar, own, none_covers, if_neg (by omega : ¬ c.toNat = 0x130), ite_self]

private theorem isCaseless_of_isBlank (h : isBlank c = true) : isCaseless c = true := by
  have own : lowerChar c = [c] :=
    lowerChar_of_not_lowered (Ranges.has_eq_false_of_apart (by decide +kernel) h)
  have ignorable : isCaseIgnorable c = false :=
    Ranges.has_eq_false_of_apart (by decide +kernel) h
  have cased : isCased c = false := Ranges.has_eq_false_of_apart (by decide +kernel) h
  have sigma : c ≠ 'Σ' := by
    rintro rfl
    exact absurd h (by decide)
  simp [isCaseless, sigma, own, ignorable, cased]

private theorem startsCased_append (h : ∀ c ∈ blanks, isCaseless c = true) :
    startsCased (cs ++ blanks) = startsCased cs := by
  unfold startsCased
  induction cs with
  | nil =>
    cases blanks with
    | nil => rfl
    | cons c blanks =>
      have caseless := h c List.mem_cons_self
      simp only [isCaseless, Bool.and_eq_true, Bool.not_eq_true'] at caseless
      simp [caseless]
  | cons c cs ih =>
    rw [List.cons_append, List.dropWhile_cons, List.dropWhile_cons]
    split
    · exact ih
    · rfl

private theorem lowerAfter_append_before (h : ∀ c ∈ blanks, isCaseless c = true) (before cs : List Char) :
    lowerAfter (before ++ blanks) cs = lowerAfter before cs := by
  induction cs generalizing before with
  | nil => rfl
  | cons c cs ih =>
    rw [lowerAfter, lowerAfter, ← List.cons_append, ih, lowerSigma, lowerSigma, startsCased_append h]

private theorem lowerAfter_caseless (h : ∀ c ∈ blanks, isCaseless c = true) (before cs : List Char) :
    lowerAfter before (blanks ++ cs) = blanks ++ lowerAfter (blanks.reverse ++ before) cs := by
  induction blanks generalizing before with
  | nil => rfl
  | cons c blanks ih =>
    obtain ⟨caseless, others⟩ := List.forall_mem_cons.mp h
    simp only [isCaseless, Bool.and_eq_true, bne_iff_ne, beq_iff_eq] at caseless
    obtain ⟨⟨⟨other, own⟩, -⟩, -⟩ := caseless
    rw [List.cons_append, lowerAfter, if_neg other, own, ih others]
    simp

private theorem lowerAfter_append_caseless (h : ∀ c ∈ blanks, isCaseless c = true) (before cs : List Char) :
    lowerAfter before (cs ++ blanks) = lowerAfter before cs ++ blanks := by
  induction cs generalizing before with
  | nil =>
    have own := lowerAfter_caseless h before []
    simpa [lowerAfter] using own
  | cons c cs ih =>
    rw [List.cons_append, lowerAfter, lowerAfter, ih, lowerSigma, lowerSigma, startsCased_append h,
      List.append_assoc]

private theorem lowerChars_between {before behind : List Char} (hbefore : ∀ c ∈ before, isCaseless c = true)
    (hbehind : ∀ c ∈ behind, isCaseless c = true) (cs : List Char) :
    lowerChars (before ++ cs ++ behind) = before ++ lowerChars cs ++ behind := by
  have reversed : ∀ c ∈ before.reverse, isCaseless c = true := fun c hc =>
    hbefore c (List.mem_reverse.mp hc)
  have unseen : lowerAfter (before.reverse ++ []) cs = lowerAfter [] cs := by
    rw [List.append_nil]
    exact lowerAfter_append_before reversed [] cs
  rw [lowerChars, lowerAfter_append_caseless hbehind, lowerAfter_caseless hbefore, unseen, lowerChars]

/-! ### Trimmed texts -/

private theorem exists_trimChars (cs : List Char) : ∃ before behind, cs = before ++ trimChars cs ++ behind ∧
    (∀ c ∈ before, isBlank c = true) ∧ ∀ c ∈ behind, isBlank c = true := by
  have start := List.takeWhile_append_dropWhile (p := isBlank) (l := cs)
  have finish := List.takeWhile_append_dropWhile (p := isBlank) (l := (dropBlanks cs).reverse)
  refine ⟨cs.takeWhile isBlank, ((dropBlanks cs).reverse.takeWhile isBlank).reverse, ?_, ?_, ?_⟩
  · have kept := congrArg List.reverse finish
    rw [List.reverse_append, List.reverse_reverse] at kept
    rw [trimChars, dropBlanksEnd, List.append_assoc, dropBlanks, kept]
    exact start.symm
  · exact fun c hc => List.mem_takeWhile_imp hc
  · exact fun c hc => List.mem_takeWhile_imp (List.mem_reverse.mp hc)

private theorem infix_between {before behind word : List Char} (nonempty : word ≠ [])
    (hbefore : ∀ c ∈ before, c ∉ word) (hbehind : ∀ c ∈ behind, c ∉ word) :
    word <:+: before ++ cs ++ behind ↔ word <:+: cs := by
  constructor
  · intro found
    rw [List.append_assoc] at found
    have inside : word <:+: cs ++ behind := by
      induction before with
      | nil => exact found
      | cons c before ih =>
        obtain ⟨here, others⟩ := List.forall_mem_cons.mp hbefore
        have apart : word <:+: [] ++ c :: (before ++ (cs ++ behind)) := found
        rcases infix_append_cons apart here with none | later
        · exact absurd (List.infix_nil.mp none) nonempty
        · exact ih others later
    cases behind with
    | nil => simpa using inside
    | cons c behind =>
      obtain ⟨here, others⟩ := List.forall_mem_cons.mp hbehind
      rcases infix_append_cons inside here with inside | later
      · exact inside
      · obtain ⟨d, rest, rfl⟩ := List.exists_cons_of_ne_nil nonempty
        have shared : d ∈ behind := later.subset List.mem_cons_self
        exact absurd List.mem_cons_self (others d shared)
  · rintro ⟨start, finish, rfl⟩
    exact ⟨before ++ start, finish ++ behind, by simp⟩

/-- A word without blanks occurs in the lower-case form of a text exactly if it occurs in that of the
trimmed text. -/
theorem contains_lowerChars_trimChars {word : String} (nonempty : word.toList ≠ [])
    (visible : ∀ c ∈ word.toList, isBlank c = false) (cs : List Char) :
    contains (lowerChars (trimChars cs)) word = contains (lowerChars cs) word := by
  obtain ⟨before, behind, whole, hbefore, hbehind⟩ := exists_trimChars cs
  have lowered := lowerChars_between (fun c hc => isCaseless_of_isBlank (hbefore c hc))
    (fun c hc => isCaseless_of_isBlank (hbehind c hc)) (trimChars cs)
  rw [← whole] at lowered
  have apart {blanks : List Char} (h : ∀ c ∈ blanks, isBlank c = true) : ∀ c ∈ blanks, c ∉ word.toList := by
    intro c hc shared
    have blank := h c hc
    rw [visible c shared] at blank
    cases blank
  rw [Bool.eq_iff_iff, contains, contains, lowered, occurs_iff_infix, occurs_iff_infix,
    infix_between nonempty (apart hbefore) (apart hbehind)]

end Tutor.Text
