import Tutor.Number.Binary64
import Tutor.Number.Fraction

/-!
The shortest decimal that reads back as a given double. The reals that round to `m · 2^u` form an
interval around it, ends included if `m` is even. For each number of digits the two neighbours of the
value on that decimal grid are tried; the first grid with a hit gives the digits, of two hits the
nearer one is taken, and of two equally near ones the larger.
-/

set_option autoImplicit false
set_option relaxedAutoImplicit false

namespace Tutor.Number

/-- A positive decimal `digits · 10^exponent`. -/
structure ShortDecimal where
  digits : Nat
  exponent : Int
  deriving DecidableEq, Repr

def powerRat (base : Nat) (e : Int) : Rat :=
  if 0 ≤ e then (Nat.pow base e.toNat : Rat) else mkRat 1 (Nat.pow base (-e).toNat)

/-- Whether a rational rounds to the positive double `m · 2^u`. Below a power of two the neighbours
are half as far apart. -/
def roundsTo (m : Nat) (u : Int) (q : Rat) : Bool :=
  let unit := powerRat 2 u
  let value := (m : Rat) * unit
  let low := if m = exponentUnit ∧ -1074 < u then value - unit / 4 else value - unit / 2
  let high := value + unit / 2
  if m % 2 = 0 then low ≤ q && q ≤ high else low < q && q < high

/-- The exponent of the highest power of ten not above a positive rational, searched upwards or
downwards from an estimate. -/
def decimalExponent (q : Rat) : Int :=
  let estimate : Int := (Nat.log2 q.num.natAbs : Int) - Nat.log2 q.den
  let start : Int := estimate * 30103 / 100000 - 1
  let tries : List Int := [start + 3, start + 2, start + 1, start]
  (tries.find? fun e => powerRat 10 e ≤ q).getD start

/-- The neighbours of a value on the grid of multiples of `10^e` that read back, nearest first. -/
def gridHit? (m : Nat) (u : Int) (e : Int) : Option ShortDecimal :=
  let grid := powerRat 10 e
  let scaled := (m : Rat) * powerRat 2 u / grid
  let below := scaled.floor.toNat
  let hit (n : Nat) : Bool := roundsTo m u ((n : Rat) * grid)
  let belowFirst : Bool := scaled - (below : Rat) < 1 / 2
  let candidates := if belowFirst then [below, below + 1] else [below + 1, below]
  (candidates.find? fun n => n ≠ 0 && hit n).map (⟨·, e⟩)

/-- The shortest decimal that reads back as the positive double `m · 2^u`. Seventeen digits always
suffice. -/
def shortest (m : Nat) (u : Int) : ShortDecimal :=
  let top := decimalExponent ((m : Rat) * powerRat 2 u)
  ((List.range 18).findSome? fun (digits : Nat) => gridHit? m u (top - (digits : Int))).getD ⟨0, 0⟩

def dropZeros (n : Nat) : Nat × Nat :=
  if n = 0 ∨ n % 10 ≠ 0 then (n, 0)
  else
    let (rest, zeros) := dropZeros (n / 10)
    (rest, zeros + 1)
termination_by n

def ShortDecimal.normalize (s : ShortDecimal) : ShortDecimal :=
  let (digits, zeros) := dropZeros s.digits
  ⟨digits, s.exponent + zeros⟩

def zeros (n : Nat) : List Char := List.replicate n '0'

/-- Positional notation, never with an exponent: `1500`, `0.0025`, `1.5`. -/
def ShortDecimal.positional (s : ShortDecimal) : List Char :=
  let s := s.normalize
  let digits := Nat.toDigits 10 s.digits
  if 0 ≤ s.exponent then digits ++ zeros s.exponent.toNat
  else
    let places := (-s.exponent).toNat
    let padded := zeros (places + 1 - digits.length) ++ digits
    let whole := padded.length - places
    padded.take whole ++ '.' :: padded.drop whole

/-- Scientific notation with one digit before the point: `1e0`, `2.5e-7`. -/
def ShortDecimal.scientific (s : ShortDecimal) : List Char :=
  let s := s.normalize
  let digits := Nat.toDigits 10 s.digits
  let exponent := s.exponent + (digits.length - 1 : Nat)
  let fraction := if digits.length ≤ 1 then [] else '.' :: digits.drop 1
  digits.take 1 ++ fraction ++ 'e' :: (integerText exponent).toList

def floatTextWith (notate : ShortDecimal → List Char) (zero : String) (x : Float) : String :=
  let sign (negative : Bool) : String := if negative then "-" else ""
  match floatKind x with
  | .notANumber => "NaN"
  | .infinite negative => sign negative ++ "inf"
  | .finite value =>
    if value.mantissa = 0 then sign value.negative ++ zero
    else sign value.negative ++ String.ofList (notate (shortest value.mantissa value.exponent))

/-- The text of a double in positional notation: the fewest digits that read back. -/
def floatText : Float → String := floatTextWith ShortDecimal.positional "0"

/-- The text of a double in scientific notation: the fewest digits that read back. -/
def floatScientific : Float → String := floatTextWith ShortDecimal.scientific "0e0"

example : String.ofList (shortest 0x1999999999999a (-56)).positional = "0.1" := by decide +kernel
example : String.ofList (shortest 1 (-1074)).scientific = "5e-324" := by decide +kernel
example : String.ofList (shortest exponentUnit 0).positional = "4503599627370496" := by decide +kernel

end Tutor.Number
