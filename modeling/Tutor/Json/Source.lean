import Tutor.Json.Token

/-!
JSON values as they are read, and what can be asked of them. A text that is asked for has to be one; a
value that nobody asks for only has to be well-formed.
-/

set_option autoImplicit false
set_option relaxedAutoImplicit false

namespace Tutor.Json

/-- A JSON value as it stands in a text. -/
inductive Source where
  | null
  | bool (value : Bool)
  | number (text : List Char)
  | string (pieces : List Piece)
  | array (items : List Source)
  | object (fields : List (List Piece × Source))
  deriving Repr

namespace Source

/-- What is left of a list of tokens after something was read from it. -/
abbrev Shorter (ts : List Token) := { rest : List Token // rest.length < ts.length }

mutual

def value? : (ts : List Token) → Option (Source × Shorter ts)
  | .null :: rest => some (.null, ⟨rest, by simp⟩)
  | .bool b :: rest => some (.bool b, ⟨rest, by simp⟩)
  | .number text :: rest => some (.number text, ⟨rest, by simp⟩)
  | .string pieces :: rest => some (.string pieces, ⟨rest, by simp⟩)
  | .openArray :: .closeArray :: rest => some (.array [], ⟨rest, by simp only [List.length_cons]; omega⟩)
  | .openArray :: rest =>
    match items? rest with
    | none => none
    | some (items, final) =>
      some (.array items, ⟨final.1, Nat.lt_trans final.2 (Nat.lt_succ_self _)⟩)
  | .openObject :: .closeObject :: rest => some (.object [], ⟨rest, by simp only [List.length_cons]; omega⟩)
  | .openObject :: rest =>
    match fields? rest with
    | none => none
    | some (fields, final) =>
      some (.object fields, ⟨final.1, Nat.lt_trans final.2 (Nat.lt_succ_self _)⟩)
  | _ => none
termination_by ts => (ts.length, 0)

def items? (ts : List Token) : Option (List Source × Shorter ts) :=
  match value? ts with
  | none => none
  | some (item, ⟨.closeArray :: rest, h⟩) =>
    some ([item], ⟨rest, Nat.lt_trans (Nat.lt_succ_self _) h⟩)
  | some (item, ⟨.comma :: rest, h⟩) =>
    match items? rest with
    | none => none
    | some (items, final) =>
      some (item :: items, ⟨final.1, Nat.lt_trans final.2 (Nat.lt_trans (Nat.lt_succ_self _) h)⟩)
  | some _ => none
termination_by (ts.length, 1)
decreasing_by
  · exact Prod.Lex.right _ (by decide)
  · exact Prod.Lex.left _ _ (Nat.lt_trans (Nat.lt_succ_self _) h)

def fields? : (ts : List Token) → Option (List (List Piece × Source) × Shorter ts)
  | .string key :: .colon :: start =>
    match value? start with
    | none => none
    | some (value, ⟨.closeObject :: rest, h⟩) =>
      some ([(key, value)], ⟨rest, by simp only [List.length_cons] at *; omega⟩)
    | some (value, ⟨.comma :: rest, h⟩) =>
      match fields? rest with
      | none => none
      | some (fields, final) =>
        some ((key, value) :: fields, ⟨final.1, by
          have := final.2
          simp only [List.length_cons] at *
          omega⟩)
    | some _ => none
  | _ => none
termination_by ts => (ts.length, 1)
decreasing_by
  · exact Prod.Lex.left _ _ (by simp only [List.length_cons]; omega)
  · exact Prod.Lex.left _ _ (by simp only [List.length_cons] at *; omega)

end

def ofText? (cs : List Char) : Option Source := do
  let (value, rest) ← value? (← tokens? cs)
  if rest.1.isEmpty then return value else none

def text? : Source → Option String
  | .string pieces => (Piece.join? pieces).map String.ofList
  | _ => none

def texts? : Source → Option (List String)
  | .array items => items.mapM text?
  | _ => none

/-- The name that a value gives: a text, or the only key of an object that has null there. -/
def name? : Source → Option String
  | .object [(key, .null)] => text? (.string key)
  | source => text? source

def orNull? {α : Type} (read : Source → Option α) : Source → Option (Option α)
  | .null => some none
  | source => (read source).map some

def optional? {α : Type} (read : Source → Option α) (part : Option Source) : Option (Option α) :=
  match part with
  | some source => orNull? read source
  | none => some none

/-- The parts of a structure with these names, in their order: the fields of an object, of which others
do not matter, or the items of an array, of which only the first `enough` have to be there. No name may
occur twice. -/
def parts? (names : List String) (enough : Nat) : Source → Option (List (Option Source))
  | .object fields => do
    let named ← fields.mapM fun (key, value) => return (← text? (.string key), value)
    names.mapM fun name =>
      match named.filter fun (key, _) => key == name with
      | [] => some none
      | [(_, value)] => some (some value)
      | _ => none
  | .array items =>
    if enough ≤ items.length ∧ items.length ≤ names.length then
      some (items.map some ++ List.replicate (names.length - items.length) none)
    else none
  | _ => none

example : (ofText? " [1, \x7b\"a\": [], \"b\": \"\\ud800\"\x7d] ".toList).isSome = true := by cbv
example : (ofText? "[1,]".toList).isSome = false := by cbv

end Source

end Tutor.Json
