import Tutor.Number.Fraction

/-!
JSON values and their two written forms: compact, without blanks, and indented by two blanks for every
level. Objects keep the order of their fields.
-/

set_option autoImplicit false
set_option relaxedAutoImplicit false

namespace Tutor

/-- A JSON value. A number is kept as it is written. -/
inductive Json where
  | null
  | bool (value : Bool)
  | number (text : String)
  | string (value : String)
  | array (items : List Json)
  | object (fields : List (String × Json))
  deriving Repr, Inhabited

namespace Json

def ofNat (n : Nat) : Json := .number (Number.naturalText n)

def ofInt (n : Int) : Json := .number (Number.integerText n)

def ofStrings (items : List String) : Json := .array (items.map .string)

def ofOption {α : Type} (encode : α → Json) : Option α → Json
  | some a => encode a
  | none => .null

def hexDigit (n : Nat) : Char := Nat.digitChar (n % 16)

/-- A character inside of a quoted text: quotes, backslashes and control characters are escaped, all
else stands for itself. -/
def escapeChar (c : Char) : List Char :=
  if c = '"' then ['\\', '"']
  else if c = '\\' then ['\\', '\\']
  else if c.toNat = 0x08 then ['\\', 'b']
  else if c.toNat = 0x09 then ['\\', 't']
  else if c.toNat = 0x0A then ['\\', 'n']
  else if c.toNat = 0x0C then ['\\', 'f']
  else if c.toNat = 0x0D then ['\\', 'r']
  else if c.toNat < 0x20 then ['\\', 'u', '0', '0', hexDigit (c.toNat / 16), hexDigit c.toNat]
  else [c]

def quoted (s : String) : String := "\"" ++ String.ofList (s.toList.flatMap escapeChar) ++ "\""

mutual

def compact : Json → String
  | .null => "null"
  | .bool b => if b then "true" else "false"
  | .number text => text
  | .string s => quoted s
  | .array items => "[" ++ String.intercalate "," (compactItems items) ++ "]"
  | .object fields => "\x7b" ++ String.intercalate "," (compactFields fields) ++ "\x7d"

def compactItems : List Json → List String
  | [] => []
  | item :: rest => compact item :: compactItems rest

def compactFields : List (String × Json) → List String
  | [] => []
  | (key, value) :: rest => (quoted key ++ ":" ++ compact value) :: compactFields rest

end

def newLine (level : Nat) : String := "\n" ++ String.ofList (List.replicate (2 * level) ' ')

/-- Items one to a line between brackets; nothing stands between them if there are none. -/
def block (level : Nat) (opening closing : String) (items : List String) : String :=
  if items.isEmpty then opening ++ closing
  else
    opening ++ newLine (level + 1) ++ String.intercalate ("," ++ newLine (level + 1)) items ++
      newLine level ++ closing

mutual

def indentedAt (level : Nat) : Json → String
  | .null => "null"
  | .bool b => if b then "true" else "false"
  | .number text => text
  | .string s => quoted s
  | .array items => block level "[" "]" (indentedItems (level + 1) items)
  | .object fields => block level "\x7b" "\x7d" (indentedFields (level + 1) fields)

def indentedItems (level : Nat) : List Json → List String
  | [] => []
  | item :: rest => indentedAt level item :: indentedItems level rest

def indentedFields (level : Nat) : List (String × Json) → List String
  | [] => []
  | (key, value) :: rest =>
    (quoted key ++ ": " ++ indentedAt level value) :: indentedFields level rest

end

def indented (value : Json) : String := indentedAt 0 value

theorem lineFeed_notMem_escapeChar (c : Char) : '\n' ∉ escapeChar c := by
  have digit (n : Nat) : hexDigit n ≠ '\n' := by
    have h : n % 16 < 16 := Nat.mod_lt _ (by decide)
    simp only [hexDigit]
    generalize n % 16 = d at h
    decide +revert
  unfold escapeChar
  split
  · decide
  split
  · decide
  split
  · decide
  split
  · decide
  split
  · decide
  split
  · decide
  split
  · decide
  split
  · simp [(digit _).symm]
  · rename_i h _ _ _
    simp only [List.mem_singleton]
    rintro rfl
    exact h rfl

example : compact (.object [("a", .array [.string "x\"\n", .null]), ("b", .object [])]) =
    "\x7b\"a\":[\"x\\\"\\n\",null],\"b\":\x7b\x7d\x7d" := by decide +kernel

end Json

end Tutor
