import Tutor.Expr.Printer
import Tutor.Proofs.Expr.Grammar
import Tutor.Proofs.Expr.Letters
import Tutor.Proofs.Number.Digits
import Tutor.Proofs.Value.Equivalence

/-!
Writing an expression and reading it back. The tree that is read may be another one, since signs move to
the front of products and into sums, and products and quotients are grouped anew from the left; but it
denotes the same partial function, with one exception: a negative integer as the base of a power is
written without brackets, and its sign is read as the sign of the power. The grammar is followed along the
writing: for every level the written form is a phrase of the kind that fits the surroundings.
-/

set_option autoImplicit false
set_option relaxedAutoImplicit false

namespace Tutor.Expr

open Number (decimalValue digitsValue_toDigits fractionText integerText isDigit_of_mem_toDigits naturalText)
open Reader (functions)

def withoutSigns : Expr → Expr
  | .neg a => a.withoutSigns
  | e => e

def isNegativeInteger : Expr → Bool
  | .const q => q < 0 && q.den = 1
  | _ => false

/-- The expressions whose written form can be read back: variables are single letters, and no base of a
power is a negative integer constant or such a constant behind signs. The writing gives such a base no
brackets, and the sign is read as standing before the power. -/
def Readable : Expr → Prop
  | .var name => ∃ c : Char, c.isAlpha = true ∧ name = String.singleton c
  | .const _ => True
  | .add a b | .sub a b | .mul a b | .div a b => a.Readable ∧ b.Readable
  | .pow a b => a.Readable ∧ b.Readable ∧ a.withoutSigns.isNegativeInteger = false
  | .neg a | .sin a | .cos a | .tan a | .exp a | .log a => a.Readable

/-- The magnitude of an expression that is written as a negative integer, without brackets: of such a
constant, also behind signs that cancel each other in writing. -/
def negativeInteger? : Expr → Option Rat
  | .neg (.neg a) => a.negativeInteger?
  | .const q => if q < 0 ∧ q.den = 1 then some (-q) else none
  | _ => none

/-- The magnitude of the base of a power, if its sign is read as that of the power. A power with exponent
one half is written as a root. -/
def misreadBase? (a b : Expr) : Option Rat := if b.isHalf then none else a.negativeInteger?

/-- What the written form of an expression says: the expression itself, except that the sign of a negative
integer as a base stands before the power. -/
def asRead : Expr → Expr
  | .var name => .var name
  | .const q => .const q
  | .add a b => .add a.asRead b.asRead
  | .sub a b => .sub a.asRead b.asRead
  | .mul a b => .mul a.asRead b.asRead
  | .div a b => .div a.asRead b.asRead
  | .pow a b =>
    match misreadBase? a b with
    | some n => .neg (.pow (.const n) b.asRead)
    | none => .pow a.asRead b.asRead
  | .neg a => .neg a.asRead
  | .sin a => .sin a.asRead
  | .cos a => .cos a.asRead
  | .tan a => .tan a.asRead
  | .exp a => .exp a.asRead
  | .log a => .log a.asRead

/-- No base of a power is written as a negative integer, except under a root. -/
def NoMisreadBase : Expr → Prop
  | .var _ | .const _ => True
  | .add a b | .sub a b | .mul a b | .div a b => a.NoMisreadBase ∧ b.NoMisreadBase
  | .pow a b => a.NoMisreadBase ∧ b.NoMisreadBase ∧ misreadBase? a b = none
  | .neg a | .sin a | .cos a | .tan a | .exp a | .log a => a.NoMisreadBase

theorem asRead_eq_self_iff {e : Expr} : e.asRead = e ↔ e.NoMisreadBase := by
  induction e with
  | pow a b iha ihb =>
    rw [asRead, NoMisreadBase]
    split
    · rename_i n misread
      simp [misread]
    · rename_i kept
      simp [iha, ihb, kept]
  | _ => simp [asRead, NoMisreadBase, *]

private theorem negativeInteger?_of_withoutSigns {e : Expr} (h : e.withoutSigns.isNegativeInteger = false) :
    e.negativeInteger? = none := by
  fun_induction negativeInteger? e with
  | case1 a ih => exact ih h
  | case2 q negative => simp [withoutSigns, isNegativeInteger, negative] at h
  | case3 q _ => rfl
  | case4 e _ _ => rfl

theorem Readable.letterVariables {e : Expr} (h : e.Readable) : e.LetterVariables := by
  induction e with
  | var name => exact h
  | const q => trivial
  | add a b iha ihb | sub a b iha ihb | mul a b iha ihb | div a b iha ihb => exact ⟨iha h.1, ihb h.2⟩
  | pow a b iha ihb => exact ⟨iha h.1, ihb h.2.1⟩
  | neg a ih | sin a ih | cos a ih | tan a ih | exp a ih | log a ih => exact ih h

private theorem Readable.noMisreadBase {e : Expr} (h : e.Readable) : e.NoMisreadBase := by
  induction e with
  | var name => trivial
  | const q => trivial
  | add a b iha ihb | sub a b iha ihb | mul a b iha ihb | div a b iha ihb => exact ⟨iha h.1, ihb h.2⟩
  | pow a b iha ihb =>
    obtain ⟨ha, hb, base⟩ := h
    refine ⟨iha ha, ihb hb, ?_⟩
    rw [misreadBase?, negativeInteger?_of_withoutSigns base, ite_self]
  | neg a ih | sin a ih | cos a ih | tan a ih | exp a ih | log a ih => exact ih h

private theorem Written.neg_product {cs : List Char} {f : Expr} (h : Written .product cs f) :
    ∃ g, Written .product ('-' :: cs) g ∧ Equivalent g (.neg f) := by
  -- The induction follows the first factors down to the operand on which the sign is set.
  generalize kind : Phrase.product = p at h
  induction h with
  | multiplied first second ih _ =>
    obtain ⟨g, written, same⟩ := ih kind
    refine ⟨_, written.multiplied second, ?_⟩
    exact (same.mul (.refl _)).trans (equivalent_neg_mul _ _)
  | divided first second ih _ =>
    obtain ⟨g, written, same⟩ := ih kind
    refine ⟨_, written.divided second, ?_⟩
    exact (same.div (.refl _)).trans (equivalent_neg_div _ _)
  | @outer p cs f h ih =>
    cases p with
    | unary => exact ⟨_, h.negated.outer, .refl _⟩
    | _ => cases kind
  | _ => cases kind

private theorem Written.mul_product {cs ds : List Char} {f g : Expr} (hf : Written .product cs f)
    (hg : Written .product ds g) : ∃ k, Written .product (cs ++ '*' :: ds) k ∧ Equivalent k (.mul f g) := by
  -- The induction is on the second factor, whose own factors are taken over from the left.
  generalize kind : Phrase.product = p at hg
  induction hg with
  | multiplied first second ih _ =>
    obtain ⟨k, written, same⟩ := ih kind
    refine ⟨k.mul _, ?_, (same.mul (.refl _)).trans (equivalent_mul_assoc _ _ _)⟩
    rw [← List.cons_append, ← List.append_assoc]
    exact written.multiplied second
  | divided first second ih _ =>
    obtain ⟨k, written, same⟩ := ih kind
    refine ⟨k.div _, ?_, (same.div (.refl _)).trans (equivalent_mul_div _ _ _)⟩
    rw [← List.cons_append, ← List.append_assoc]
    exact written.divided second
  | @outer p ds g h ih =>
    cases p with
    | unary => exact ⟨_, hf.multiplied h, .refl _⟩
    | _ => cases kind
  | _ => cases kind

/-- The text is a phrase of the grammar, and what it stands for denotes the same as the expression. -/
def Renders (p : Phrase) (s : String) (e : Expr) : Prop := ∃ f, Written p s.toList f ∧ Equivalent f e

namespace Renders

variable {p : Phrase} {s t : String} {a b e : Expr}

private theorem of_equivalent (h : Renders p s a) (hab : Equivalent a b) : Renders p s b := by
  obtain ⟨f, written, same⟩ := h
  exact ⟨f, written, same.trans hab⟩

theorem outer (h : Renders p s e) (n : Nat) : Renders (Phrase.outer^[n] p) s e := by
  induction n with
  | zero => exact h
  | succ n ih =>
    obtain ⟨f, written, same⟩ := ih
    rw [Function.iterate_succ_apply']
    exact ⟨f, written.outer, same⟩

theorem letter {c : Char} (h : c.isAlpha = true) :
    Renders .primary (String.singleton c) (.var (String.singleton c)) := by
  refine ⟨_, ?_, .refl _⟩
  rw [String.toList_singleton]
  exact .letter h

theorem natural (n : Nat) : Renders .primary (naturalText n) (.const n) := by
  have digits : ∀ c ∈ Nat.toDigits 10 n, c.isDigit = true := fun _ => isDigit_of_mem_toDigits
  have value : decimalValue (Nat.toDigits 10 n) [] = n := by
    rw [decimalValue, List.append_nil, digitsValue_toDigits]
    exact Rat.mkRat_one n
  refine ⟨.const (decimalValue (Nat.toDigits 10 n) []), ?_, value ▸ .refl _⟩
  rw [naturalText, String.toList_ofList]
  exact .number Nat.toDigits_ne_nil digits

theorem bracketed (h : Renders .sum s e) : Renders .primary ("(" ++ s ++ ")") e := by
  obtain ⟨f, written, same⟩ := h
  refine ⟨f, ?_, same⟩
  rw [String.toList_append, String.toList_append]
  exact written.bracketed

theorem applied {name : String} {node : Expr → Expr} (mem : (name.toList, node) ∈ functions)
    (node_congr : ∀ {f}, Equivalent f e → Equivalent (node f) (node e)) (h : Renders .sum s e) :
    Renders .primary (name ++ "(" ++ s ++ ")") (node e) := by
  obtain ⟨f, written, same⟩ := h
  refine ⟨node f, ?_, node_congr same⟩
  simp only [String.toList_append, List.append_assoc]
  exact written.applied mem

theorem negated (h : Renders .unary s e) : Renders .unary ("-" ++ s) (.neg e) := by
  obtain ⟨f, written, same⟩ := h
  refine ⟨_, ?_, same.neg⟩
  rw [String.toList_append]
  exact written.negated

private theorem negated_product (h : Renders .product s e) : Renders .product ("-" ++ s) (.neg e) := by
  obtain ⟨f, written, same⟩ := h
  obtain ⟨g, signed, same_signed⟩ := written.neg_product
  refine ⟨g, ?_, same_signed.trans same.neg⟩
  rw [String.toList_append]
  exact signed

theorem joined {q r : Phrase} {node : Expr → Expr → Expr} {operator : String}
    (build : ∀ {cs ds f g}, Written p cs f → Written q ds g →
      ∃ k, Written r (cs ++ (operator.toList ++ ds)) k ∧ Equivalent k (node f g))
    (node_congr : ∀ {f g}, Equivalent f a → Equivalent g b → Equivalent (node f g) (node a b))
    (ha : Renders p s a) (hb : Renders q t b) : Renders r (s ++ operator ++ t) (node a b) := by
  obtain ⟨f, first, same_first⟩ := ha
  obtain ⟨g, second, same_second⟩ := hb
  obtain ⟨k, written, same⟩ := build first second
  refine ⟨k, ?_, same.trans (node_congr same_first same_second)⟩
  rw [String.toList_append, String.toList_append, List.append_assoc]
  exact written

theorem raised : Renders .primary s a → Renders .unary t b → Renders .power (s ++ "^" ++ t) (.pow a b) :=
  joined (fun first second => ⟨_, first.raised second, .refl _⟩) .pow

theorem multiplied : Renders .product s a → Renders .product t b →
    Renders .product (s ++ "*" ++ t) (.mul a b) := joined Written.mul_product .mul

theorem divided : Renders .product s a → Renders .unary t b →
    Renders .product (s ++ "/" ++ t) (.div a b) :=
  joined (fun first second => ⟨_, first.divided second, .refl _⟩) .div

theorem added : Renders .sum s a → Renders .product t b → Renders .sum (s ++ "+" ++ t) (.add a b) :=
  joined (fun first second => ⟨_, first.added second, .refl _⟩) .add

theorem subtracted : Renders .sum s a → Renders .product t b → Renders .sum (s ++ "-" ++ t) (.sub a b) :=
  joined (fun first second => ⟨_, first.subtracted second, .refl _⟩) .sub

end Renders

/-- The kind of phrase that fits surroundings of a level. For the base of a power it is a primary phrase,
unless the expression is one of those that get no brackets there. -/
def phraseAt (level : Nat) (e : Expr) : Phrase :=
  if level ≤ 1 then .sum
  else if level = 2 then .product
  else if level = 3 ∨ e.negativeInteger?.isSome then .unary
  else .primary

private theorem signed_cases (e : Expr) :
    e.signed = true ∧ Equivalent (.neg e.unsigned.asRead) e.asRead ∨ e.signed = false ∧ e.unsigned = e := by
  cases e with
  | const q =>
    by_cases negative : q < 0
    · refine .inl ⟨by simp [signed, negative], ?_⟩
      simp only [unsigned, negative, if_true]
      have same := equivalent_neg_const (-q)
      rw [neg_neg] at same
      exact same
    · exact .inr (by simp [signed, unsigned, negative])
  | neg a => exact .inl ⟨rfl, .refl _⟩
  | _ => exact .inr ⟨rfl, rfl⟩

private theorem negativeInteger?_neg {e : Expr} (h : e.signed = true) :
    (Expr.neg e).negativeInteger? = e.unsigned.negativeInteger? := by
  cases e with
  | const q =>
    have negative : q < 0 := of_decide_eq_true h
    have positive : ¬ -q < 0 := by
      rw [not_lt, Left.nonneg_neg_iff]
      exact negative.le
    simp [negativeInteger?, unsigned, negative, positive]
  | neg a => rfl
  | _ => cases h

namespace Renders

variable {p : Phrase} {s t : String} {a b e f : Expr} {level : Nat}

private theorem at_of_primary (h : Renders .primary s e) : Renders (phraseAt level f) s e := by
  unfold phraseAt
  split_ifs
  · exact h.outer 4
  · exact h.outer 3
  · exact h.outer 2
  · exact h

private theorem at_of_unary (h : Renders .unary s e) (fits : 4 ≤ level → f.negativeInteger?.isSome) :
    Renders (phraseAt level f) s e := by
  unfold phraseAt
  split_ifs with low product unary
  · exact h.outer 2
  · exact h.outer 1
  · exact h
  · exact absurd (.inr (fits (by omega))) unary

private theorem at_of_product (h : Renders .product s e) (fits : level ≤ 2) : Renders (phraseAt level f) s e := by
  unfold phraseAt
  split_ifs with low product
  · exact h.outer 1
  · exact h
  · omega
  · omega

private theorem unary_of_at (h : Renders (phraseAt level f) s e) (high : 3 ≤ level) : Renders .unary s e := by
  unfold phraseAt at h
  split_ifs at h
  · omega
  · omega
  · exact h
  · exact h.outer 2

private theorem at_bracket {strength : Nat} (h : Renders .sum s e)
    (fits : level ≤ strength → Renders (phraseAt level f) s e) :
    Renders (phraseAt level f) (bracket level strength s) e := by
  unfold bracket
  split_ifs
  · exact h.bracketed.at_of_primary
  · exact fits (by omega)

private theorem at_bracket_sum (h : Renders .sum s e) : Renders (phraseAt level f) (bracket level 1 s) e := by
  apply h.at_bracket
  intro low
  rw [phraseAt, if_pos low]
  exact h

private theorem at_bracket_product (h : Renders .product s e) :
    Renders (phraseAt level f) (bracket level 2 s) e :=
  (h.outer 1).at_bracket h.at_of_product

private theorem at_bracket_unary (h : Renders .unary s e) : Renders (phraseAt level f) (bracket level 3 s) e :=
  (h.outer 2).at_bracket fun low => h.at_of_unary fun high => by omega

theorem integer (n : Int) (level : Nat) :
    Renders (phraseAt level (.const n)) (integerText n) (.const n) := by
  unfold integerText
  split_ifs with negative
  · have absolute : -(n.natAbs : Int) = n := by omega
    have magnitude : -(n.natAbs : Rat) = n := by
      rw [← Int.cast_natCast, ← Int.cast_neg, absolute]
    have signed := ((natural n.natAbs).outer 2).negated.of_equivalent (equivalent_neg_const _)
    rw [magnitude] at signed
    apply signed.at_of_unary
    intro _
    have below : (n : Rat) < 0 := by exact_mod_cast negative
    simp [negativeInteger?, below]
  · have absolute : (n.natAbs : Int) = n := by omega
    have magnitude : (n.natAbs : Rat) = n := by
      rw [← Int.cast_natCast, absolute]
    have digits := natural n.natAbs
    rw [magnitude] at digits
    exact digits.at_of_primary

theorem constant (q : Rat) (level : Nat) :
    Renders (phraseAt level (.const q)) (constText level q) (.const q) := by
  unfold constText fractionText
  split_ifs with whole
  · have integral := integer q.num level
    rw [(Rat.den_eq_one_iff q).mp whole] at integral
    exact integral
  · have numerator := (integer q.num 3).unary_of_at (by decide)
    have denominator := (natural q.den).outer 2
    have quotient := (numerator.outer 1).divided denominator
    exact (quotient.of_equivalent (equivalent_num_div_den q)).at_bracket_product

private theorem signed_pair {node : Expr → Expr → Expr}
    (body : Renders .product s (node a.unsigned.asRead b.unsigned.asRead))
    (congr : ∀ {c d c' d'}, Equivalent c c' → Equivalent d d' → Equivalent (node c d) (node c' d'))
    (left : ∀ c d, Equivalent (node (.neg c) d) (.neg (node c d)))
    (right : ∀ c d, Equivalent (node c (.neg d)) (.neg (node c d))) :
    Renders .product (signText a b ++ s) (node a.asRead b.asRead) := by
  unfold signText
  rcases signed_cases a with ⟨sign_a, same_a⟩ | ⟨sign_a, same_a⟩ <;>
    rcases signed_cases b with ⟨sign_b, same_b⟩ | ⟨sign_b, same_b⟩ <;>
    rw [sign_a, sign_b]
  · have both := (left a.unsigned.asRead (.neg b.unsigned.asRead)).trans
      (right a.unsigned.asRead b.unsigned.asRead).neg
    have cancelled := (both.trans (equivalent_neg_neg _)).symm
    exact body.of_equivalent (cancelled.trans (congr same_a same_b))
  · have moved := (left a.unsigned.asRead b.unsigned.asRead).symm
    rw [same_b] at body moved
    exact body.negated_product.of_equivalent (moved.trans (congr same_a (.refl b.asRead)))
  · have moved := (right a.unsigned.asRead b.unsigned.asRead).symm
    rw [same_a] at body moved
    exact body.negated_product.of_equivalent (moved.trans (congr (.refl a.asRead) same_b))
  · rw [same_a, same_b] at body
    exact body

private theorem added_term (ha : Renders .sum s a) (hb : Renders .product t b.unsigned.asRead) :
    Renders .sum (s ++ (if b.signed then "-" else "+") ++ t) (.add a b.asRead) := by
  rcases signed_cases b with ⟨sign, same⟩ | ⟨sign, same⟩ <;> rw [sign]
  · have moved := (equivalent_add_neg a b.unsigned.asRead).symm
    exact (ha.subtracted hb).of_equivalent (moved.trans (.add (.refl a) same))
  · rw [same] at hb
    exact ha.added hb

private theorem subtracted_term (ha : Renders .sum s a) (hb : Renders .product t b.unsigned.asRead) :
    Renders .sum (s ++ (if b.signed then "+" else "-") ++ t) (.sub a b.asRead) := by
  rcases signed_cases b with ⟨sign, same⟩ | ⟨sign, same⟩ <;> rw [sign]
  · have moved := (equivalent_sub_neg a b.unsigned.asRead).symm
    exact (ha.added hb).of_equivalent (moved.trans (.sub (.refl a) same))
  · rw [same] at hb
    exact ha.subtracted hb

end Renders

private theorem textAt_of_negativeInteger? {e : Expr} {q : Rat} (h : e.negativeInteger? = some q) :
    ∃ n : Nat, q = n ∧ textAt false 4 e = "-" ++ naturalText n := by
  fun_induction negativeInteger? e with
  | case1 a ih => exact ih h
  | case2 p negative =>
    obtain ⟨below, whole⟩ := negative
    have sign : p.num < 0 := Rat.num_neg.mpr below
    have absolute : ((p.num.natAbs : Int) : Rat) = -p := by
      rw [Int.ofNat_natAbs_of_nonpos sign.le, Int.cast_neg, (Rat.den_eq_one_iff p).mp whole]
    refine ⟨p.num.natAbs, ?_, ?_⟩
    · rw [← Option.some.inj h, ← absolute, Int.cast_natCast]
    · rw [textAt, Bool.false_and, if_neg Bool.false_ne_true, constText, if_pos whole, fractionText,
        if_pos whole, integerText, if_pos sign]
  | case3 p _ => cases h
  | case4 e _ _ => cases h

private theorem eq_half_of_isHalf {e : Expr} (h : e.isHalf = true) : e = .const (1 / 2) := by
  cases e with
  | const q => simpa [isHalf, const?] using h
  | _ => simp [isHalf, const?] at h

/-- The form of an expression that is written: all of it, or what is left without its sign. -/
def part (bare : Bool) (e : Expr) : Expr := if bare then e.unsigned else e

/-- The written form at a level is a phrase of the kind that fits there, and says what it is read as. The
induction is on the expression, for both forms of every part and for all levels. -/
theorem renders_textAt {e : Expr} (h : e.LetterVariables) (bare : Bool) (level : Nat) :
    Renders (phraseAt level (e.part bare)) (textAt bare level e) (e.part bare).asRead := by
  induction e generalizing bare level with
  | var name =>
    obtain ⟨c, letter, rfl⟩ := h
    have renders := Renders.letter letter
    cases bare <;> exact renders.at_of_primary
  | const q =>
    have value : (Expr.const q).part bare = .const (if bare && q < 0 then -q else q) := by
      cases bare <;> by_cases negative : q < 0 <;> simp [part, unsigned, negative]
    rw [value]
    exact .constant _ level
  | add a b iha ihb =>
    have sum := Renders.added_term (iha h.1 false 1) (ihb h.2 true 2)
    cases bare <;> exact sum.at_bracket_sum
  | sub a b iha ihb =>
    have difference := Renders.subtracted_term (iha h.1 false 1) (ihb h.2 true 2)
    cases bare <;> exact difference.at_bracket_sum
  | mul a b iha ihb =>
    have body := Renders.multiplied (iha h.1 true 2) (ihb h.2 true 2)
    have product := Renders.signed_pair body .mul equivalent_neg_mul equivalent_mul_neg
    simp only [← String.append_assoc] at product
    cases bare <;> exact product.at_bracket_product
  | div a b iha ihb =>
    have body := Renders.divided (iha h.1 true 2) (ihb h.2 true 3)
    have quotient := Renders.signed_pair body .div equivalent_neg_div equivalent_div_neg
    simp only [← String.append_assoc] at quotient
    cases bare <;> exact quotient.at_bracket_product
  | pow a b iha ihb =>
    obtain ⟨ha, hb⟩ := h
    have whole : (Expr.pow a b).part bare = .pow a b := by cases bare <;> rfl
    rw [whole, textAt, asRead, misreadBase?]
    split_ifs with half
    · obtain rfl := eq_half_of_isHalf half
      have mem : ("sqrt".toList, Expr.sqrt) ∈ functions := by simp [functions]
      exact (Renders.applied mem (fun same => .pow same (.refl _)) (iha ha false 0)).at_of_primary
    · have exponent := (ihb hb false 4).unary_of_at (by decide)
      split
      -- The sign of the base stands in front of a power with a primary phrase as its base.
      · rename_i q misread
        obtain ⟨n, rfl, base⟩ := textAt_of_negativeInteger? misread
        have power := (((Renders.natural n).raised exponent).outer 1).negated
        simp only [← String.append_assoc] at power
        rw [base]
        exact power.at_bracket_unary
      · rename_i kept
        have base := iha ha false 4
        have primary : phraseAt 4 (a.part false) = .primary := by
          simp [phraseAt, part, kept]
        rw [primary] at base
        exact ((base.raised exponent).outer 1).at_bracket_unary
  | neg a ih =>
    cases bare with
    | true => exact ih h false level
    | false =>
      rw [textAt, if_neg Bool.false_ne_true]
      rcases signed_cases a with ⟨sign, same⟩ | ⟨sign, same⟩ <;> rw [sign]
      -- Two signs cancel: what is written is the operand without its own sign.
      · have twice := (equivalent_neg_neg a.unsigned.asRead).symm.trans same.neg
        have operand := ih h true level
        rw [phraseAt, part, if_pos rfl, ← negativeInteger?_neg sign] at operand
        exact operand.of_equivalent twice
      · have operand := (ih h true 4).unary_of_at (by decide)
        rw [part, if_pos rfl, same] at operand
        exact (operand.negated.outer 1).at_bracket_product
  | sin a ih =>
    have mem : ("sin".toList, Expr.sin) ∈ functions := by simp [functions]
    have applied := Renders.applied mem .sin (ih h false 0)
    cases bare <;> exact applied.at_of_primary
  | cos a ih =>
    have mem : ("cos".toList, Expr.cos) ∈ functions := by simp [functions]
    have applied := Renders.applied mem .cos (ih h false 0)
    cases bare <;> exact applied.at_of_primary
  | tan a ih =>
    have mem : ("tan".toList, Expr.tan) ∈ functions := by simp [functions]
    have applied := Renders.applied mem .tan (ih h false 0)
    cases bare <;> exact applied.at_of_primary
  | exp a ih =>
    have mem : ("exp".toList, Expr.exp) ∈ functions := by simp [functions]
    have applied := Renders.applied mem .exp (ih h false 0)
    cases bare <;> exact applied.at_of_primary
  | log a ih =>
    have mem : ("log".toList, Expr.log) ∈ functions := by simp [functions]
    have applied := Renders.applied mem .log (ih h false 0)
    cases bare <;> exact applied.at_of_primary

/-- The written form of an expression with single letters as variables is always read, as an expression
that denotes what the form says. -/
theorem exists_parse_text_asRead {e : Expr} (h : e.LetterVariables) :
    ∃ e', parse e.text = .ok e' ∧ Equivalent e' e.asRead := by
  obtain ⟨e', written, same⟩ := renders_textAt h false 0
  exact ⟨e', parse_of_written written, same⟩

/-- A readable expression is read back from its written form as an expression that denotes the same. -/
private theorem exists_parse_text {e : Expr} (h : e.Readable) :
    ∃ e', parse e.text = .ok e' ∧ Equivalent e' e := by
  obtain ⟨e', read, same⟩ := exists_parse_text_asRead h.letterVariables
  rw [asRead_eq_self_iff.mpr h.noMisreadBase] at same
  exact ⟨e', read, same⟩

/-- Writing and reading keep the meaning: the written form of a readable expression is an expression
again, which is defined under the same assignments and has the same values there. -/
theorem parse_text_denotes {e : Expr} (h : e.Readable) : ∃ e', parse e.text = .ok e' ∧
    ∀ ρ, (e'.DefinedAt ρ ↔ e.DefinedAt ρ) ∧ (e.DefinedAt ρ → e'.evalAt ρ = e.evalAt ρ) := by
  obtain ⟨e', read, same⟩ := exists_parse_text h
  exact ⟨e', read, fun ρ => ⟨same.definedAt_iff ρ, same.evalAt_eq⟩⟩

/-- Signs that stand side by side, a power of a negative number and a quotient inside a product. -/
theorem parse_text_denotes_signs :
    let e : Expr := .sub (.pow (.neg (.const 2)) (.var "x"))
      (.mul (.neg (.const (-2))) (.div (.neg (.var "y")) (.sqrt (.var "z"))))
    e.text = "(-2)^x---2*-y/sqrt(z)" ∧ ∃ e', parse "(-2)^x---2*-y/sqrt(z)" = .ok e' ∧
      ∀ ρ, (e'.DefinedAt ρ ↔ e.DefinedAt ρ) ∧ (e.DefinedAt ρ → e'.evalAt ρ = e.evalAt ρ) := by
  intro e
  have written : e.text = "(-2)^x---2*-y/sqrt(z)" := by decide +kernel
  have variable_x : Readable (.var "x") := ⟨'x', rfl, rfl⟩
  have variable_y : Readable (.var "y") := ⟨'y', rfl, rfl⟩
  have variable_z : Readable (.var "z") := ⟨'z', rfl, rfl⟩
  have readable : e.Readable := by
    refine ⟨⟨trivial, variable_x, ?_⟩, trivial, variable_y, variable_z, trivial, rfl⟩
    decide +kernel
  have read_back := parse_text_denotes readable
  rw [written] at read_back
  exact ⟨written, read_back⟩

/-- A negative integer as the base of a power gets no brackets, so it is not read back: its sign is read
as the sign of the power. -/
theorem exists_parse_text_negative_base {n : Nat} (positive : 0 < n) {b : Expr} (hb : b.Readable)
    (power : b.isHalf = false) : ∃ e', parse (Expr.pow (.const (-n)) b).text = .ok e' ∧
      Equivalent e' (.neg (.pow (.const n) b)) := by
  have base : misreadBase? (.const (-n)) b = some n := by
    simp [misreadBase?, negativeInteger?, power, positive]
  have letters : (Expr.pow (.const (-n)) b).LetterVariables := ⟨trivial, hb.letterVariables⟩
  obtain ⟨e', read, same⟩ := exists_parse_text_asRead letters
  rw [asRead, base, asRead_eq_self_iff.mpr hb.noMisreadBase] at same
  exact ⟨e', read, same⟩

end Tutor.Expr
