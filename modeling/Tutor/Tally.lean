/-!
Tallies: rational amounts booked under keys, kept in the order of the keys, each key once. Collecting
the like terms of a sum and the equal bases of a product are both tallies.
-/

set_option autoImplicit false
set_option relaxedAutoImplicit false

namespace Tutor

universe u

/-- Amounts under keys, in strictly increasing order of the keys. -/
abbrev Tally (κ : Type u) := List (κ × Rat)

namespace Tally

variable {κ : Type u} [Ord κ]

/-- Books an amount under a key: it is added to what the key holds already, and a new key takes its
place in the order. An amount of zero is kept. -/
def book (key : κ) (amount : Rat) : Tally κ → Tally κ
  | [] => [(key, amount)]
  | (k, q) :: rest =>
    match compare key k with
    | .lt => (key, amount) :: (k, q) :: rest
    | .eq => (k, q + amount) :: rest
    | .gt => (k, q) :: book key amount rest

/-- The tally of some entries. It stands for a map in which the amounts are added up and whose entries are
then sorted by their keys. -/
def ofList (entries : List (κ × Rat)) : Tally κ :=
  entries.foldl (fun tally entry => tally.book entry.1 entry.2) []

example : ofList [(2, 1), (1, 5), (2, -1)] = [((1 : Nat), 5), (2, 0)] := by decide +kernel

end Tally

end Tutor
