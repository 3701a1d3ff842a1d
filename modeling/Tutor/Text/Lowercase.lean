import Tutor.Text.CaseRanges

/-!
The lower-case form of a text. Nearly every character has a form of its own; the capital I with a dot
becomes two characters, and the capital sigma takes its final form at the end of a word: where a
letter with case precedes it and none follows, apostrophes and the like passed over.
-/

set_option autoImplicit false
set_option relaxedAutoImplicit false

namespace Tutor.Text

def lowerChar (c : Char) : List Char :=
  if c.toNat < 0x80 then [c.toLower]
  else if c.toNat = 0x130 then ['i', Char.ofNat 0x307]
  else
    match lowerRuns.find? fun run =>
        run.first ≤ c.toNat && c.toNat ≤ run.last && (c.toNat - run.first) % run.step == 0 with
    | some run => [Char.ofNat ((c.toNat : Int) + run.shift).toNat]
    | none => [c]

def startsCased (cs : List Char) : Bool := (cs.dropWhile isCaseIgnorable).head?.any isCased

/-- The lower-case sigma between two parts of a text, the one before it reversed. -/
def lowerSigma (before after : List Char) : Char :=
  if startsCased before && !startsCased after then 'ς' else 'σ'

/-- The lower-case form of characters, given what stands before them in reverse. -/
def lowerAfter (before : List Char) : List Char → List Char
  | [] => []
  | c :: rest =>
    (if c = 'Σ' then [lowerSigma before rest] else lowerChar c) ++ lowerAfter (c :: before) rest

def lowerChars (cs : List Char) : List Char := lowerAfter [] cs

def lowercase (s : String) : String := String.ofList (lowerChars s.toList)

theorem lowerAfter_ascii (before cs : List Char) (h : ∀ c ∈ cs, c.toNat < 0x80) :
    lowerAfter before cs = cs.map Char.toLower := by
  induction cs generalizing before with
  | nil => rfl
  | cons c rest ih =>
    have hc := h c (by simp)
    have sigma : c ≠ 'Σ' := by rintro rfl; exact absurd hc (by decide)
    rw [lowerAfter, if_neg sigma, lowerChar, if_pos hc, ih _ fun d hd => h d (by simp [hd])]
    rfl

example : lowercase "ΑΣ ΑΣΑ" = "ας ασα" := by decide +kernel
example : lowercase "İÉĀ" = "i̇éā" := by decide +kernel

end Tutor.Text
