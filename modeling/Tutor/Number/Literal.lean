/-!
Reading numbers: integers with an optional sign and underscores between their digits, and decimals,
which keep their exact value.
-/

set_option autoImplicit false
set_option relaxedAutoImplicit false

namespace Tutor.Number

inductive LiteralError where
  | empty
  | invalidDigit
  deriving DecidableEq, Repr

def LiteralError.message : LiteralError → String
  | .empty => "cannot parse integer from empty string"
  | .invalidDigit => "invalid digit found in string"

def digitValue (c : Char) : Nat := c.toNat - '0'.toNat

def digitsValue (digits : List Char) : Nat :=
  digits.foldl (fun n c => 10 * n + digitValue c) 0

def dropPlus : List Char → List Char
  | '+' :: '+' :: rest => '+' :: '+' :: rest
  | '+' :: rest => rest
  | cs => cs

/-- A natural number: an optional plus sign, a digit, then digits and underscores. -/
def readNatural (cs : List Char) : Except LiteralError Nat :=
  let body := dropPlus cs
  if body.isEmpty then .error .empty
  else if body.head? == some '_' then .error .invalidDigit
  else
    let digits := body.filter (· != '_')
    if digits.all Char.isDigit then .ok (digitsValue digits) else .error .invalidDigit

/-- An integer: an optional minus sign, then a natural number. After a minus sign no plus sign is
read. -/
def readInteger : List Char → Except LiteralError Int
  | '-' :: '+' :: _ => .error .invalidDigit
  | '-' :: rest => (readNatural rest).map fun n => -(n : Int)
  | cs => (readNatural cs).map fun n => (n : Int)

def decimalValue (whole frac : List Char) : Rat :=
  mkRat (digitsValue (whole ++ frac)) (Nat.pow 10 frac.length)

/-- A decimal: an integer, or an integer in which a point is set; all that stands behind the first
point scales by a tenth. -/
def readDecimal (cs : List Char) : Except LiteralError Rat :=
  match cs.dropWhile (· != '.') with
  | _ :: frac =>
    (readInteger (cs.takeWhile (· != '.') ++ frac)).map fun n => mkRat n (Nat.pow 10 frac.length)
  | [] => (readInteger cs).map fun n => (n : Rat)

def readSignedDecimal? (cs : List Char) : Option Rat :=
  match cs with
  | '-' :: rest => (readDecimal rest).toOption.map (- ·)
  | '+' :: rest => (readDecimal rest).toOption
  | _ => (readDecimal cs).toOption

example : readInteger "-1_000".toList = .ok (-1000) := by rfl
example : readInteger "-".toList = .error .empty := by rfl
example : readInteger "_1".toList = .error .invalidDigit := by rfl
example : (readDecimal "2.50".toList).toOption = some (5 / 2) := by decide +kernel
example : readSignedDecimal? "--.5".toList = some (1 / 2) := by decide +kernel

end Tutor.Number
