import Tutor.Instant.Basic
import Tutor.Number.Literal
import Tutor.Text.Blank
import Tutor.Text.Search

/-!
Reading instants. The form is that of RFC 3339 with some freedom: blanks may stand before every part,
numbers need no zeros in front, a sign allows for any year, a blank may separate the date from the time,
and the offset from UTC may lack its colon or be the word `UTC`.
-/

set_option autoImplicit false
set_option relaxedAutoImplicit false

namespace Tutor.Instant

open Number (digitsValue)
open Text (isBlank dropBlanks after?)

def digits? (width : Nat) (cs : List Char) : Option (Nat × List Char) :=
  let run := (cs.take width).takeWhile Char.isDigit
  if run.isEmpty then none else some (digitsValue run, cs.drop run.length)

def number? (width : Nat) (cs : List Char) : Option (Nat × List Char) := digits? width (dropBlanks cs)

/-- A year behind blanks: up to four digits, or a sign and any number of them. -/
def year? (cs : List Char) : Option (Int × List Char) :=
  match dropBlanks cs with
  | '-' :: rest => (digits? rest.length rest).map fun (n, final) => (-(n : Int), final)
  | '+' :: rest => (digits? rest.length rest).map fun (n, final) => ((n : Int), final)
  | start => (digits? 4 start).map fun (n, final) => ((n : Int), final)

def date? (cs : List Char) : Option (Date × List Char) := do
  let (year, rest) ← year? cs
  let (month, rest) ← number? 2 (← after? "-" (dropBlanks rest))
  let (day, rest) ← number? 2 (← after? "-" (dropBlanks rest))
  return (← Date.ofParts? year month day, rest)

def separator? : List Char → Option (List Char)
  | c :: rest => if c = 'T' || c = 't' || c = ' ' then some rest else none
  | [] => none

/-- The fraction of a second, in nanoseconds; digits behind the ninth do not count. -/
def fraction? : List Char → Option (Nat × List Char)
  | '.' :: rest => do
    let run := (rest.take 9).takeWhile Char.isDigit
    if run.isEmpty then none
    else return (digitsValue run * Nat.pow 10 (9 - run.length), rest.dropWhile Char.isDigit)
  | cs => some (0, cs)

def time? (cs : List Char) : Option (ClockTime × List Char) := do
  let (hour, rest) ← number? 2 cs
  let (minute, rest) ← number? 2 (← after? ":" (dropBlanks rest))
  let (second, rest) ← number? 2 (← after? ":" (dropBlanks rest))
  let (nanosecond, rest) ← fraction? rest
  return (← ClockTime.ofParts? hour minute second nanosecond, rest)

def twoDigits? : List Char → Option (Nat × List Char)
  | a :: b :: rest => if a.isDigit && b.isDigit then some (digitsValue [a, b], rest) else none
  | _ => none

/-- Hours and minutes of an offset, with or without colons and blanks between them. -/
def hoursAndMinutes? (cs : List Char) : Option (Int × List Char) := do
  let (hours, rest) ← twoDigits? cs
  let (minutes, rest) ← twoDigits? (rest.dropWhile fun c => c == ':' || isBlank c)
  if hours < 24 ∧ minutes < 60 then some (60 * (hours : Int) + minutes, rest) else none

def offset? (cs : List Char) : Option (Int × List Char) :=
  if (cs.take 3).map Char.toLower = ['u', 't', 'c'] then some (0, cs.drop 3)
  else
    match cs with
    | 'Z' :: rest => some (0, rest)
    | 'z' :: rest => some (0, rest)
    | '+' :: rest => hoursAndMinutes? rest
    | '-' :: rest => (hoursAndMinutes? rest).map fun (ahead, final) => (-ahead, final)
    | '−' :: rest => (hoursAndMinutes? rest).map fun (ahead, final) => (-ahead, final)
    | _ => none

def ofText? (text : String) : Option Instant := do
  let (date, rest) ← date? text.toList
  let (time, rest) ← time? (← separator? rest)
  let (ahead, rest) ← offset? (dropBlanks rest)
  if rest.all isBlank then ofLocal? date time ahead else none

example : (ofText? "2001-02-03T04:05:06-05:30").map text = some "2001-02-03T09:35:06Z" := by
  decide +kernel
example : (ofText? "2000-1-1 0:00:60.25 +0001").map text = some "1999-12-31T23:59:60.250Z" := by
  decide +kernel
example : (ofText? "-0001-02-29T00:00:00Z").map text = none := by decide +kernel

end Tutor.Instant
