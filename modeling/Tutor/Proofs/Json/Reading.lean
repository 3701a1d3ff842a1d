import Tutor.Json.Source

/-!
The tokens that a JSON value is written with, and the proof that the reader takes exactly these for the
value: what it reads is written that way, and whatever is written that way is read. It follows that an
accepted text has as many opening as closing brackets, and that no proper part at its start has.
-/

set_option autoImplicit false
set_option relaxedAutoImplicit false

namespace Tutor.Json.Source

mutual

def tokens : Source → List Token
  | .null => [.null]
  | .bool b => [.bool b]
  | .number text => [.number text]
  | .string pieces => [.string pieces]
  | .array [] => [.openArray, .closeArray]
  | .array (item :: others) => .openArray :: (item.tokens ++ moreItems others)
  | .object [] => [.openObject, .closeObject]
  | .object ((key, value) :: others) =>
    .openObject :: .string key :: .colon :: (value.tokens ++ moreFields others)

/-- The tokens behind an item of an array: further items and the closing bracket. -/
def moreItems : List Source → List Token
  | [] => [.closeArray]
  | item :: others => .comma :: (item.tokens ++ moreItems others)

/-- The tokens behind a field of an object: further fields and the closing brace. -/
def moreFields : List (List Piece × Source) → List Token
  | [] => [.closeObject]
  | (key, value) :: others => .comma :: .string key :: .colon :: (value.tokens ++ moreFields others)

end

/-! ### What is read was written that way -/

/-- What the readers take from these tokens is written with the tokens that they take. -/
structure ReadsWritten (ts : List Token) : Prop where
  value {v : Source} {rest : Shorter ts} (h : value? ts = some (v, rest)) : ts = v.tokens ++ rest.1
  items {items : List Source} {rest : Shorter ts} (h : items? ts = some (items, rest)) :
    ∃ item others, items = item :: others ∧ ts = item.tokens ++ (moreItems others ++ rest.1)
  fields {fields : List (List Piece × Source)} {rest : Shorter ts} (h : fields? ts = some (fields, rest)) :
    ∃ key value others, fields = (key, value) :: others ∧
      ts = .string key :: .colon :: (value.tokens ++ (moreFields others ++ rest.1))

section Step

variable {ts : List Token} {v : Source} {items : List Source} {fields : List (List Piece × Source)}
  {rest : Shorter ts}

private theorem eq_tokens_of_value? (ih : ∀ {us}, us.length < ts.length → ReadsWritten us)
    (h : value? ts = some (v, rest)) : ts = v.tokens ++ rest.1 := by
  unfold value? at h
  split at h
  · cases h; rfl
  · cases h; rfl
  · cases h; rfl
  · cases h; rfl
  · cases h; rfl
  · split at h
    · cases h
    · rename_i inside _ _ items final read
      cases h
      obtain ⟨item, others, rfl, written⟩ := (ih (by simp)).items read
      show .openArray :: inside = .openArray :: (item.tokens ++ moreItems others) ++ final.1
      rw [List.cons_append, List.append_assoc, ← written]
  · cases h; rfl
  · split at h
    · cases h
    · rename_i inside _ _ fields final read
      cases h
      obtain ⟨key, value, others, rfl, written⟩ := (ih (by simp)).fields read
      show .openObject :: inside =
        .openObject :: .string key :: .colon :: (value.tokens ++ moreFields others) ++ final.1
      rw [List.cons_append, List.cons_append, List.cons_append, List.append_assoc, ← written]
  · cases h

private theorem eq_tokens_of_items?
    (value : ∀ {v : Source} {rest : Shorter ts}, value? ts = some (v, rest) → ts = v.tokens ++ rest.1)
    (ih : ∀ {us}, us.length < ts.length → ReadsWritten us) (h : items? ts = some (items, rest)) :
    ∃ item others, items = item :: others ∧ ts = item.tokens ++ (moreItems others ++ rest.1) := by
  unfold items? at h
  split at h
  · cases h
  · rename_i item final _ read
    cases h
    exact ⟨item, [], rfl, value read⟩
  · rename_i item behind shorter read
    split at h
    · cases h
    · rename_i others final more
      cases h
      obtain ⟨next, further, rfl, written⟩ :=
        (ih (Nat.lt_trans (Nat.lt_succ_self _) shorter)).items more
      refine ⟨item, next :: further, rfl, (value read).trans ?_⟩
      rw [moreItems, List.cons_append, List.append_assoc, ← written]
  · cases h

private theorem eq_tokens_of_fields? (ih : ∀ {us}, us.length < ts.length → ReadsWritten us)
    (h : fields? ts = some (fields, rest)) :
    ∃ key value others, fields = (key, value) :: others ∧
      ts = .string key :: .colon :: (value.tokens ++ (moreFields others ++ rest.1)) := by
  unfold fields? at h
  split at h
  · rename_i key start
    have inner : ReadsWritten start := ih (by simp only [List.length_cons]; omega)
    split at h
    · cases h
    · rename_i value final _ read
      cases h
      exact ⟨key, value, [], rfl, congrArg (.string key :: .colon :: ·) (inner.value read)⟩
    · rename_i value behind shorter read
      split at h
      · cases h
      · rename_i others final more
        cases h
        have smaller : behind.length < (Token.string key :: .colon :: start).length := by
          simp only [List.length_cons] at shorter ⊢
          omega
        obtain ⟨next, second, further, rfl, written⟩ := (ih smaller).fields more
        refine ⟨key, value, (next, second) :: further, rfl, ?_⟩
        have first := inner.value read
        simp only [written] at first
        simp only [moreFields, List.cons_append, List.append_assoc]
        exact congrArg (.string key :: .colon :: ·) first
    · cases h
  · cases h

end Step

theorem readsWritten (ts : List Token) : ReadsWritten ts := by
  induction hn : ts.length using Nat.strongRecOn generalizing ts with
  | ind n ih =>
    subst hn
    have shorter {us : List Token} (h : us.length < ts.length) : ReadsWritten us := ih _ h us rfl
    have value {v : Source} {rest : Shorter ts} (h : value? ts = some (v, rest)) : ts = v.tokens ++ rest.1 :=
      eq_tokens_of_value? shorter h
    exact ⟨value, eq_tokens_of_items? value shorter, eq_tokens_of_fields? shorter⟩

/-! ### What is written is read -/

def Reads {α : Type} (read : (ts : List Token) → Option (α × Shorter ts)) (ts : List Token) (a : α)
    (rest : List Token) : Prop :=
  ∃ h : rest.length < ts.length, read ts = some (a, ⟨rest, h⟩)

private theorem exists_tokens_eq_cons (v : Source) : ∃ t ts, v.tokens = t :: ts ∧ t ≠ .closeArray := by
  cases v with
  | array items => cases items <;> exact ⟨_, _, rfl, by simp⟩
  | object fields => cases fields <;> exact ⟨_, _, rfl, by simp⟩
  | _ => exact ⟨_, _, rfl, by simp⟩

section Composed

variable {ts rest : List Token} {item : Source} {others : List Source} {key : List Piece}
  {fields : List (List Piece × Source)}

private theorem reads_array (h : Reads items? ts (item :: others) rest) (start : ts.head? ≠ some .closeArray) :
    Reads value? (.openArray :: ts) (.array (item :: others)) rest := by
  obtain ⟨shorter, found⟩ := h
  refine ⟨Nat.lt_trans shorter (Nat.lt_succ_self _), ?_⟩
  have nonempty : ∀ tail, ts = .closeArray :: tail → False := by
    rintro tail rfl
    exact start rfl
  rw [value?.eq_6 ts nonempty]
  simp only [found]

private theorem reads_object (h : Reads fields? (.string key :: ts) fields rest) :
    Reads value? (.openObject :: .string key :: ts) (.object fields) rest := by
  obtain ⟨shorter, found⟩ := h
  refine ⟨Nat.lt_trans shorter (Nat.lt_succ_self _), ?_⟩
  simp only [value?, found]

private theorem reads_last_item (h : Reads value? ts item (.closeArray :: rest)) : Reads items? ts [item] rest := by
  obtain ⟨shorter, found⟩ := h
  refine ⟨Nat.lt_trans (Nat.lt_succ_self _) shorter, ?_⟩
  rw [items?]
  simp only [found]

private theorem reads_item {us : List Token} (h : Reads value? ts item (.comma :: us))
    (more : Reads items? us others rest) : Reads items? ts (item :: others) rest := by
  obtain ⟨shorter, found⟩ := h
  obtain ⟨_, more⟩ := more
  refine ⟨by simp only [List.length_cons] at shorter; omega, ?_⟩
  rw [items?]
  simp only [found, more]

private theorem reads_last_field (h : Reads value? ts item (.closeObject :: rest)) :
    Reads fields? (.string key :: .colon :: ts) [(key, item)] rest := by
  obtain ⟨shorter, found⟩ := h
  refine ⟨by simp only [List.length_cons] at shorter ⊢; omega, ?_⟩
  rw [fields?]
  simp only [found]

private theorem reads_field {us : List Token} (h : Reads value? ts item (.comma :: us))
    (more : Reads fields? us fields rest) :
    Reads fields? (.string key :: .colon :: ts) ((key, item) :: fields) rest := by
  obtain ⟨shorter, found⟩ := h
  obtain ⟨_, more⟩ := more
  refine ⟨by simp only [List.length_cons] at shorter ⊢; omega, ?_⟩
  rw [fields?]
  simp only [found, more]

end Composed

mutual

theorem reads_tokens : ∀ (v : Source) (rest : List Token), Reads value? (v.tokens ++ rest) v rest
  | .null, rest => ⟨by simp [tokens], by simp [tokens, value?]⟩
  | .bool b, rest => ⟨by simp [tokens], by simp [tokens, value?]⟩
  | .number text, rest => ⟨by simp [tokens], by simp [tokens, value?]⟩
  | .string pieces, rest => ⟨by simp [tokens], by simp [tokens, value?]⟩
  | .array [], rest =>
    ⟨by simp only [tokens, List.length_append, List.length_cons]; omega, by simp [tokens, value?]⟩
  | .array (item :: others), rest => by
    obtain ⟨t, ts, written, start⟩ := item.exists_tokens_eq_cons
    rw [tokens, List.cons_append, List.append_assoc]
    exact reads_array (reads_items item others rest) (by simp [written, start])
  | .object [], rest =>
    ⟨by simp only [tokens, List.length_append, List.length_cons]; omega, by simp [tokens, value?]⟩
  | .object ((key, value) :: others), rest => by
    simp only [tokens, List.cons_append, List.append_assoc]
    exact reads_object (reads_fields key value others rest)
termination_by v => sizeOf v

theorem reads_items : ∀ (item : Source) (others : List Source) (rest : List Token),
    Reads items? (item.tokens ++ (moreItems others ++ rest)) (item :: others) rest
  | item, [], rest => reads_last_item (reads_tokens item (.closeArray :: rest))
  | item, next :: others, rest => by
    simp only [moreItems, List.cons_append, List.append_assoc]
    exact reads_item (reads_tokens item _) (reads_items next others rest)
termination_by item others => sizeOf item + sizeOf others

theorem reads_fields : ∀ (key : List Piece) (value : Source) (others : List (List Piece × Source))
    (rest : List Token),
    Reads fields? (.string key :: .colon :: (value.tokens ++ (moreFields others ++ rest)))
      ((key, value) :: others) rest
  | key, value, [], rest => reads_last_field (reads_tokens value (.closeObject :: rest))
  | key, value, (next, second) :: others, rest => by
    simp only [moreFields, List.cons_append, List.append_assoc]
    exact reads_field (reads_tokens value _) (reads_fields next second others rest)
termination_by _ value others => sizeOf value + sizeOf others

end

/-! ### Brackets -/

def turn : Token → Int
  | .openArray | .openObject => 1
  | .closeArray | .closeObject => -1
  | _ => 0

def depth : List Token → Int
  | [] => 0
  | t :: ts => turn t + depth ts

@[simp] theorem depth_nil : depth [] = 0 := rfl

@[simp] theorem depth_cons (t : Token) (ts : List Token) : depth (t :: ts) = turn t + depth ts := rfl

@[simp] theorem depth_append (ts us : List Token) : depth (ts ++ us) = depth ts + depth us := by
  induction ts with
  | nil => simp
  | cons t ts ih => simp [ih, Int.add_assoc]

/-- No proper part at the start closes more brackets than it opens. -/
def StaysOpen (ts : List Token) : Prop := ∀ n < ts.length, 0 ≤ depth (ts.take n)

/-- Every bracket that is opened is closed, and no proper part at the start has this property. -/
structure Enclosed (ts : List Token) : Prop where
  closed : depth ts = 0
  inside : ∀ n < ts.length, 0 < n → 0 < depth (ts.take n)

private theorem enclosed_singleton {t : Token} (h : turn t = 0) : Enclosed [t] where
  closed := by simp [h]
  inside := by
    intro n below positive
    simp only [List.length_singleton] at below
    omega

private theorem Enclosed.staysOpen_append {ts us : List Token} (h : Enclosed ts) (more : StaysOpen us) :
    StaysOpen (ts ++ us) := by
  intro n below
  rw [List.take_append, depth_append]
  rcases Nat.lt_or_ge n ts.length with early | late
  · have behind : n - ts.length = 0 := by omega
    rw [behind, List.take_zero, depth_nil, Int.add_zero]
    rcases Nat.eq_zero_or_pos n with rfl | positive
    · simp
    · exact Int.le_of_lt (h.inside n early positive)
  · rw [List.take_of_length_le late, h.closed, Int.zero_add]
    rw [List.length_append] at below
    exact more _ (by omega)

theorem StaysOpen.cons {t : Token} {ts : List Token} (neutral : turn t = 0) (h : StaysOpen ts) :
    StaysOpen (t :: ts) := by
  intro n below
  cases n with
  | zero => simp
  | succ n =>
    rw [List.take_succ_cons, depth_cons, neutral, Int.zero_add]
    exact h n (Nat.lt_of_succ_lt_succ below)

private theorem staysOpen_singleton (t : Token) : StaysOpen [t] := by
  intro n below
  obtain rfl : n = 0 := by simpa using below
  simp

private theorem enclosed_cons {t : Token} {ts : List Token} (opening : turn t = 1) (h : StaysOpen ts)
    (closing : depth ts = -1) : Enclosed (t :: ts) where
  closed := by
    rw [depth_cons, opening, closing]
    rfl
  inside := by
    intro n below positive
    cases n with
    | zero => omega
    | succ n =>
      have inner := h n (Nat.lt_of_succ_lt_succ below)
      rw [List.take_succ_cons, depth_cons, opening]
      omega

mutual

theorem enclosed_tokens : ∀ v : Source, Enclosed v.tokens
  | .null => enclosed_singleton rfl
  | .bool _ => enclosed_singleton rfl
  | .number _ => enclosed_singleton rfl
  | .string _ => enclosed_singleton rfl
  | .array [] => enclosed_cons rfl (staysOpen_singleton _) rfl
  | .array (item :: others) => by
    have first := enclosed_tokens item
    obtain ⟨staysOpen, closing⟩ := staysOpen_moreItems others
    rw [tokens]
    exact enclosed_cons rfl (first.staysOpen_append staysOpen) (by simp [first.closed, closing])
  | .object [] => enclosed_cons rfl (staysOpen_singleton _) rfl
  | .object ((key, value) :: others) => by
    have first := enclosed_tokens value
    obtain ⟨staysOpen, closing⟩ := staysOpen_moreFields others
    rw [tokens]
    refine enclosed_cons rfl (.cons rfl (.cons rfl (first.staysOpen_append staysOpen))) ?_
    simp [first.closed, closing, turn]

theorem staysOpen_moreItems : ∀ items : List Source, StaysOpen (moreItems items) ∧ depth (moreItems items) = -1
  | [] => ⟨staysOpen_singleton _, rfl⟩
  | item :: others => by
    have first := enclosed_tokens item
    obtain ⟨staysOpen, closing⟩ := staysOpen_moreItems others
    rw [moreItems]
    exact ⟨.cons rfl (first.staysOpen_append staysOpen), by simp [first.closed, closing, turn]⟩

theorem staysOpen_moreFields : ∀ fields : List (List Piece × Source),
    StaysOpen (moreFields fields) ∧ depth (moreFields fields) = -1
  | [] => ⟨staysOpen_singleton _, rfl⟩
  | (key, value) :: others => by
    have first := enclosed_tokens value
    obtain ⟨staysOpen, closing⟩ := staysOpen_moreFields others
    rw [moreFields]
    refine ⟨.cons rfl (.cons rfl (.cons rfl (first.staysOpen_append staysOpen))), ?_⟩
    simp [first.closed, closing, turn]

end

/-- Tokens in front of a whole value make no value with it. -/
theorem tokens_ne_append_tokens {us : List Token} (v w : Source) (h : us ≠ []) :
    w.tokens ≠ us ++ v.tokens := by
  intro same
  have whole := enclosed_tokens w
  rw [same] at whole
  obtain ⟨t, ts, written, -⟩ := v.exists_tokens_eq_cons
  have proper : us.length < (us ++ v.tokens).length := by
    simp only [written, List.length_append, List.length_cons]
    omega
  -- The brackets are balanced in the value, so they are in what stands before it.
  have before : depth us = 0 := by
    have closed := whole.closed
    rwa [depth_append, (enclosed_tokens v).closed, Int.add_zero] at closed
  have inside := whole.inside us.length proper (List.length_pos_iff.mpr h)
  rw [List.take_left, before] at inside
  exact absurd inside (Int.lt_irrefl 0)

end Tutor.Json.Source
