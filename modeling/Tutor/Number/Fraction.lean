/-!
The written form of a rational number: lowest terms, the sign in front, and no denominator for an
integer.
-/

set_option autoImplicit false
set_option relaxedAutoImplicit false

namespace Tutor.Number

def naturalText (n : Nat) : String := String.ofList (Nat.toDigits 10 n)

def integerText (n : Int) : String :=
  if n < 0 then "-" ++ naturalText n.natAbs else naturalText n.natAbs

def fractionText (q : Rat) : String :=
  if q.den = 1 then integerText q.num else integerText q.num ++ "/" ++ naturalText q.den

example : fractionText (-3 / 4) = "-3/4" := by decide +kernel
example : fractionText (6 / 3) = "2" := by decide +kernel

end Tutor.Number
