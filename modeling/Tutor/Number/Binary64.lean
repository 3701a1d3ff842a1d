/-!
Double-precision numbers as dyadic fractions. A finite double is `± m · 2^u` with `m < 2^53` and
`-1074 ≤ u`; its bit pattern without the sign is `(u + 1074) · 2^52 + m`, where the leading bit of a
normal mantissa carries into the exponent field. A rational is rounded by rounding `m`.
-/

set_option autoImplicit false
set_option relaxedAutoImplicit false

namespace Tutor.Number

/-- The weight of the exponent field in a bit pattern, which is also the least normal mantissa. -/
def exponentUnit : Nat := 0x10000000000000

def signUnit : Nat := 0x8000000000000000

def infinityBits : Nat := 0x7FF0000000000000

/-- The quotient rounded to the nearest integer, a half to the even one. -/
def roundHalfEven (n d : Nat) : Nat :=
  let q := n / d
  let twice := 2 * (n % d)
  if twice < d then q
  else if d < twice then q + 1
  else if q % 2 = 0 then q else q + 1

theorem roundHalfEven_bounds (n d : Nat) (hd : 0 < d) :
    2 * n ≤ (2 * roundHalfEven n d + 1) * d ∧ 2 * roundHalfEven n d * d ≤ 2 * n + d := by
  have split_n := Nat.div_add_mod n d
  have lt := Nat.mod_lt n hd
  simp only [roundHalfEven]
  generalize n / d = q at *
  generalize n % d = r at *
  have expand : (2 * q + 1) * d = 2 * (d * q) + d := by grind
  have double : 2 * q * d = 2 * (d * q) := by grind
  have expand' : (2 * (q + 1) + 1) * d = 2 * (d * q) + 3 * d := by grind
  have double' : 2 * (q + 1) * d = 2 * (d * q) + 2 * d := by grind
  split
  · omega
  · split
    · omega
    · split <;> omega

/-- The exponent of the highest power of two not above a positive fraction. -/
def binaryExponent (n d : Nat) : Int :=
  let k : Int := (n.log2 : Int) - d.log2
  if d <<< k.toNat ≤ n <<< (-k).toNat then k else k - 1

/-- The bit pattern, without sign, of the double nearest to a positive fraction. -/
def magnitudeBits (n d : Nat) : Nat :=
  let u := max (binaryExponent n d - 52) (-1074)
  let m := roundHalfEven (n <<< (-u).toNat) (d <<< u.toNat)
  min ((u + 1074).toNat * exponentUnit + m) infinityBits

/-- The double nearest to a rational, a tie going to the even mantissa. Too large magnitudes become
infinite; a negative one that is too small becomes the negative zero. -/
def nearestFloat (q : Rat) : Float :=
  if q.num = 0 then 0
  else
    let bits := magnitudeBits q.num.natAbs q.den
    Float.ofBits (UInt64.ofNat (if q < 0 then bits + signUnit else bits))

/-- A finite double as `± m · 2^u`. -/
structure Dyadic where
  negative : Bool
  mantissa : Nat
  exponent : Int
  deriving DecidableEq, Repr

inductive FloatKind where
  | finite (value : Dyadic)
  | infinite (negative : Bool)
  | notANumber
  deriving DecidableEq, Repr

def floatKind (x : Float) : FloatKind :=
  let bits := x.toBits.toNat
  let negative := bits / signUnit == 1
  let field : Nat := bits / exponentUnit % 0x800
  let fraction : Nat := bits % exponentUnit
  if field = 0x7FF then
    if fraction = 0 then .infinite negative else .notANumber
  else if field = 0 then .finite ⟨negative, fraction, -1074⟩
  else .finite ⟨negative, exponentUnit + fraction, (field : Int) - 1075⟩

/-- A key for the total order of doubles: negative numbers before positive ones, the negative zero
before the positive one, infinities at the ends. What is no number comes first of all, since arithmetic
yields it with the sign set. -/
def totalOrderKey (x : Float) : Int :=
  let bits := x.toBits.toNat
  if bits ≤ infinityBits then (bits : Int)
  else if bits < signUnit then -(signUnit : Int)
  else (signUnit : Int) - 1 - (bits : Int)

example : (nearestFloat (1 / 10)).toBits = 0x3fb999999999999a := by decide +kernel
example : (nearestFloat (2 ^ 53 + 1)).toBits = 0x4340000000000000 := by decide +kernel
example : (nearestFloat (-1 / 2 ^ 1074)).toBits = 0x8000000000000001 := by decide +kernel
example : (nearestFloat (-1 / 2 ^ 1075)).toBits = 0x8000000000000000 := by decide +kernel

end Tutor.Number
