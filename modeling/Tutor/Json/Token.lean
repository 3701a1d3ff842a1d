/-!
The tokens of a JSON text. A quoted text is kept as the list of its pieces, because an escape may stand
for half of a surrogate pair, which is no character: whether the pieces make a text is asked only where
the text is needed.
-/

set_option autoImplicit false
set_option relaxedAutoImplicit false

namespace Tutor.Json

/-- What stands between quotes: a character, or a code unit of UTF-16 in hexadecimal digits. -/
inductive Piece where
  | char (c : Char)
  | unit (code : Nat)
  deriving DecidableEq, Repr

def isLeading (code : Nat) : Bool := 0xD800 ≤ code && code < 0xDC00

def isTrailing (code : Nat) : Bool := 0xDC00 ≤ code && code < 0xE000

def pairChar (leading trailing : Nat) : Char :=
  Char.ofNat (0x10000 + (leading - 0xD800) * 0x400 + (trailing - 0xDC00))

/-- The characters that pieces stand for; none if half of a surrogate pair stands alone. -/
def Piece.join? : List Piece → Option (List Char)
  | [] => some []
  | .char c :: rest => (join? rest).map (c :: ·)
  | .unit leading :: .unit trailing :: rest =>
    if isLeading leading then
      if isTrailing trailing then (join? rest).map (pairChar leading trailing :: ·) else none
    else if isTrailing leading then none
    else (join? (.unit trailing :: rest)).map (Char.ofNat leading :: ·)
  | .unit code :: rest =>
    if isLeading code || isTrailing code then none else (join? rest).map (Char.ofNat code :: ·)

def hexValue? (c : Char) : Option Nat :=
  if c.isDigit then some (c.toNat - '0'.toNat)
  else if 'a' ≤ c && c ≤ 'f' then some (c.toNat - 'a'.toNat + 10)
  else if 'A' ≤ c && c ≤ 'F' then some (c.toNat - 'A'.toNat + 10)
  else none

def unit? (a b c d : Char) : Option Nat := do
  return (((← hexValue? a) * 16 + (← hexValue? b)) * 16 + (← hexValue? c)) * 16 + (← hexValue? d)

def shortEscape? : Char → Option Char
  | '"' => some '"'
  | '\\' => some '\\'
  | '/' => some '/'
  | 'b' => some '\x08'
  | 'f' => some '\x0c'
  | 'n' => some '\n'
  | 'r' => some '\r'
  | 't' => some '\t'
  | _ => none

/-- The pieces up to the closing quote, and what follows it. Control characters have to be escaped. -/
def pieces? : List Char → Option (List Piece × List Char)
  | [] => none
  | '"' :: rest => some ([], rest)
  | '\\' :: 'u' :: a :: b :: c :: d :: rest => do
    let code ← unit? a b c d
    let (pieces, final) ← pieces? rest
    return (.unit code :: pieces, final)
  | '\\' :: letter :: rest => do
    let c ← shortEscape? letter
    let (pieces, final) ← pieces? rest
    return (.char c :: pieces, final)
  | c :: rest =>
    if c.toNat < 0x20 || c = '\\' then none
    else do
      let (pieces, final) ← pieces? rest
      return (.char c :: pieces, final)

def digits? (cs : List Char) : Option (List Char × List Char) :=
  let run := cs.takeWhile Char.isDigit
  if run.isEmpty then none else some (run, cs.dropWhile Char.isDigit)

/-- The whole part of a number: zero, or digits that do not start with zero. -/
def whole? : List Char → Option (List Char × List Char)
  | '0' :: rest => some (['0'], rest)
  | cs => digits? cs

def fraction? : List Char → Option (List Char × List Char)
  | '.' :: rest => (digits? rest).map fun (run, final) => ('.' :: run, final)
  | cs => some ([], cs)

def exponent? : List Char → Option (List Char × List Char)
  | e :: cs =>
    if e = 'e' || e = 'E' then
      match cs with
      | sign :: rest =>
        if sign = '+' || sign = '-' then
          (digits? rest).map fun (run, final) => (e :: sign :: run, final)
        else (digits? (sign :: rest)).map fun (run, final) => (e :: run, final)
      | [] => none
    else some ([], e :: cs)
  | [] => some ([], [])

def unsigned? (cs : List Char) : Option (List Char × List Char) := do
  let (whole, rest) ← whole? cs
  let (fraction, rest) ← fraction? rest
  let (exponent, rest) ← exponent? rest
  return (whole ++ fraction ++ exponent, rest)

def number? : List Char → Option (List Char × List Char)
  | '-' :: rest => (unsigned? rest).map fun (text, final) => ('-' :: text, final)
  | cs => unsigned? cs

inductive Token where
  | openArray
  | closeArray
  | openObject
  | closeObject
  | comma
  | colon
  | null
  | bool (value : Bool)
  | number (text : List Char)
  | string (pieces : List Piece)
  deriving DecidableEq, Repr

def punctuation? : Char → Option Token
  | '[' => some .openArray
  | ']' => some .closeArray
  | '\x7b' => some .openObject
  | '\x7d' => some .closeObject
  | ',' => some .comma
  | ':' => some .colon
  | _ => none

def token? : List Char → Option (Token × List Char)
  | 'n' :: 'u' :: 'l' :: 'l' :: rest => some (.null, rest)
  | 't' :: 'r' :: 'u' :: 'e' :: rest => some (.bool true, rest)
  | 'f' :: 'a' :: 'l' :: 's' :: 'e' :: rest => some (.bool false, rest)
  | '"' :: rest => (pieces? rest).map fun (pieces, final) => (.string pieces, final)
  | c :: rest =>
    match punctuation? c with
    | some token => some (token, rest)
    | none => (number? (c :: rest)).map fun (text, final) => (.number text, final)
  | [] => none

def isGap (c : Char) : Bool := c == ' ' || c == '\t' || c == '\n' || c == '\r'

/-- The tokens of a text. Every token takes at least one character, so that there are no more of them
than characters. -/
def tokensWithin : Nat → List Char → Option (List Token)
  | 0, cs => if (cs.dropWhile isGap).isEmpty then some [] else none
  | n + 1, cs =>
    match cs.dropWhile isGap with
    | [] => some []
    | start => do
      let (token, rest) ← token? start
      return token :: (← tokensWithin n rest)

def tokens? (cs : List Char) : Option (List Token) := tokensWithin cs.length cs

example : tokens? "[-1.5e+3 , \"\\u00E9\\n\"]".toList = some [.openArray,
    .number "-1.5e+3".toList, .comma, .string [.unit 0xE9, .char '\n'], .closeArray] := by
  decide +kernel
example : tokens? "\"\\x\"".toList = none := by decide +kernel
example : Piece.join? [.unit 0xD83D, .unit 0xDE00, .unit 0x41] = some ['😀', 'A'] := by
  decide +kernel
example : Piece.join? [.unit 0xD83D, .char 'x'] = none := by decide +kernel

end Tutor.Json
