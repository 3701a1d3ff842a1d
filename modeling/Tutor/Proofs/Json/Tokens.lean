import Mathlib.Data.List.DropRight
import Mathlib.Tactic.SplitIfs
import Tutor.Json.Basic
import Tutor.Proofs.Json.Reading

/-!
From the text of a JSON value to its tokens. A compact text is cut into the tokens of the value that it
stands for, whatever follows it. A text that goes on with the start of an object, but has something in
front of it, is cut at this start too, or not at all.
-/

set_option autoImplicit false
set_option relaxedAutoImplicit false

namespace Tutor.Json

variable {cs rest text : List Char}

/-! ### What a token takes from a text -/

def isNumberChar (c : Char) : Bool := c.isDigit || ['+', '-', '.', 'e', 'E'].contains c

/-- A text starts with a part that is made of the characters of numbers, and this is the rest. -/
structure StartsNumber (cs text rest : List Char) : Prop where
  split : cs = text ++ rest
  chars : ∀ c ∈ text, isNumberChar c = true

theorem StartsNumber.nil (cs : List Char) : StartsNumber cs [] cs := ⟨rfl, by simp⟩

theorem StartsNumber.cons {c : Char} (hc : isNumberChar c = true) (h : StartsNumber cs text rest) :
    StartsNumber (c :: cs) (c :: text) rest where
  split := by rw [h.split, List.cons_append]
  chars := List.forall_mem_cons.mpr ⟨hc, h.chars⟩

theorem StartsNumber.append {more final : List Char} (h : StartsNumber cs text rest)
    (h' : StartsNumber rest more final) : StartsNumber cs (text ++ more) final where
  split := by rw [h.split, h'.split, List.append_assoc]
  chars := List.forall_mem_append.mpr ⟨h.chars, h'.chars⟩

private theorem startsNumber_of_digits? (h : digits? cs = some (text, rest)) :
    StartsNumber cs text rest ∧ text ≠ [] := by
  unfold digits? at h
  dsimp only at h
  split at h
  · cases h
  · rename_i nonempty
    cases h
    refine ⟨⟨List.takeWhile_append_dropWhile.symm, fun c hc => ?_⟩, by simpa using nonempty⟩
    simp [isNumberChar, List.all_eq_true.mp List.all_takeWhile c hc]

private theorem startsNumber_of_whole? (h : whole? cs = some (text, rest)) :
    StartsNumber cs text rest ∧ text ≠ [] := by
  unfold whole? at h
  split at h
  · cases h
    exact ⟨.cons (by decide) (.nil _), by simp⟩
  · exact startsNumber_of_digits? h

private theorem startsNumber_of_fraction? (h : fraction? cs = some (text, rest)) : StartsNumber cs text rest := by
  unfold fraction? at h
  split at h
  · obtain ⟨⟨run, final⟩, read, same⟩ := Option.map_eq_some_iff.mp h
    cases same
    exact .cons (by decide) (startsNumber_of_digits? read).1
  · cases h
    exact .nil _

private theorem startsNumber_of_exponent? (h : exponent? cs = some (text, rest)) : StartsNumber cs text rest := by
  unfold exponent? at h
  split at h
  · rename_i e cs
    split at h
    · rename_i letter
      have letter_char : isNumberChar e = true := by
        rcases (Bool.or_eq_true_iff.mp letter) with he | he <;>
          rw [of_decide_eq_true he] <;> decide
      split at h
      · rename_i sign others
        split at h
        · rename_i signed
          have sign_char : isNumberChar sign = true := by
            rcases (Bool.or_eq_true_iff.mp signed) with hs | hs <;>
              rw [of_decide_eq_true hs] <;> decide
          obtain ⟨⟨run, final⟩, read, same⟩ := Option.map_eq_some_iff.mp h
          cases same
          exact .cons letter_char (.cons sign_char (startsNumber_of_digits? read).1)
        · obtain ⟨⟨run, final⟩, read, same⟩ := Option.map_eq_some_iff.mp h
          cases same
          exact .cons letter_char (startsNumber_of_digits? read).1
      · cases h
    · cases h
      exact .nil _
  · cases h
    exact .nil _

private theorem startsNumber_of_unsigned? (h : unsigned? cs = some (text, rest)) :
    StartsNumber cs text rest ∧ text ≠ [] := by
  simp only [unsigned?, Option.bind_eq_bind, Option.bind_eq_some_iff, Prod.exists] at h
  obtain ⟨whole, behind, hwhole, fraction, further, hfraction, exponent, final, hexponent, same⟩ := h
  cases same
  obtain ⟨start, nonempty⟩ := startsNumber_of_whole? hwhole
  have through := (start.append (startsNumber_of_fraction? hfraction)).append
    (startsNumber_of_exponent? hexponent)
  exact ⟨through, by simp [nonempty]⟩

private theorem startsNumber_of_number? (h : number? cs = some (text, rest)) :
    StartsNumber cs text rest ∧ text ≠ [] := by
  unfold number? at h
  split at h
  · obtain ⟨⟨run, final⟩, read, same⟩ := Option.map_eq_some_iff.mp h
    cases same
    exact ⟨.cons (by decide) (startsNumber_of_unsigned? read).1, by simp⟩
  · exact startsNumber_of_unsigned? h

private theorem length_lt_of_pieces? {pieces : List Piece} (h : pieces? cs = some (pieces, rest)) :
    rest.length < cs.length := by
  fun_induction pieces? cs generalizing pieces rest with
  | case1 => cases h
  | case2 final =>
    cases h
    simp
  | case3 a b c d tail ih =>
    simp only [Option.bind_eq_bind, Option.bind_eq_some_iff, Prod.exists] at h
    obtain ⟨code, -, more, final, read, same⟩ := h
    cases same
    have := ih read
    simp only [List.length_cons]
    omega
  | case4 letter tail _ ih =>
    simp only [Option.bind_eq_bind, Option.bind_eq_some_iff, Prod.exists] at h
    obtain ⟨c, -, more, final, read, same⟩ := h
    cases same
    have := ih read
    simp only [List.length_cons]
    omega
  | case5 c tail => cases h
  | case6 c tail _ _ _ _ ih =>
    simp only [Option.bind_eq_bind, Option.bind_eq_some_iff, Prod.exists] at h
    obtain ⟨more, final, read, same⟩ := h
    cases same
    have := ih read
    simp only [List.length_cons]
    omega

private theorem length_lt_of_token? {t : Token} (h : token? cs = some (t, rest)) : rest.length < cs.length := by
  unfold token? at h
  split at h
  · cases h; simp only [List.length_cons]; omega
  · cases h; simp only [List.length_cons]; omega
  · cases h; simp only [List.length_cons]; omega
  · obtain ⟨⟨pieces, final⟩, read, same⟩ := Option.map_eq_some_iff.mp h
    cases same
    exact Nat.lt_succ_of_lt (length_lt_of_pieces? read)
  · split at h
    · cases h
      exact Nat.lt_succ_self _
    · obtain ⟨⟨number, final⟩, read, same⟩ := Option.map_eq_some_iff.mp h
      cases same
      obtain ⟨start, nonempty⟩ := startsNumber_of_number? read
      rw [start.split, List.length_append]
      have := List.length_pos_iff.mpr nonempty
      omega
  · cases h

/-! ### Cutting a text into tokens, one after the other -/

private theorem length_dropWhile_isGap_le (cs : List Char) : (cs.dropWhile isGap).length ≤ cs.length :=
  (List.dropWhile_sublist _).length_le

private theorem tokensWithin_eq {n m : Nat} (hn : cs.length ≤ n) (hm : cs.length ≤ m) :
    tokensWithin n cs = tokensWithin m cs := by
  induction n generalizing cs m with
  | zero =>
    obtain rfl : cs = [] := List.eq_nil_of_length_eq_zero (Nat.le_zero.mp hn)
    cases m <;> rfl
  | succ n ih =>
    cases m with
    | zero =>
      obtain rfl : cs = [] := List.eq_nil_of_length_eq_zero (Nat.le_zero.mp hm)
      rfl
    | succ m =>
      have shorter := length_dropWhile_isGap_le cs
      rw [tokensWithin, tokensWithin]
      split
      · rfl
      · cases found : token? (cs.dropWhile isGap) with
        | none => rfl
        | some next =>
          have behind := length_lt_of_token? found
          simp only [Option.bind_eq_bind, Option.bind_some]
          have same : tokensWithin n next.2 = tokensWithin m next.2 := ih (by omega) (by omega)
          rw [same]

theorem tokens?_eq_bind (h : cs.dropWhile isGap ≠ []) :
    tokens? cs = (token? (cs.dropWhile isGap)).bind fun next => (tokens? next.2).map (next.1 :: ·) := by
  have shorter := length_dropWhile_isGap_le cs
  obtain ⟨n, hn⟩ : ∃ n, cs.length = n + 1 :=
    Nat.exists_eq_succ_of_ne_zero fun zero => h (by rw [List.eq_nil_of_length_eq_zero zero]; rfl)
  rw [tokens?, hn, tokensWithin]
  split
  · exact absurd ‹_› h
  · cases found : token? (cs.dropWhile isGap) with
    | none => rfl
    | some next =>
      have behind := length_lt_of_token? found
      simp only [Option.bind_eq_bind, Option.bind_some]
      rw [tokensWithin_eq (m := next.2.length) (by omega) (Nat.le_refl _), ← tokens?]
      cases tokens? next.2 <;> rfl

private theorem tokens?_of_token? {t : Token} (h : token? cs = some (t, rest)) (start : cs.dropWhile isGap = cs) :
    tokens? cs = (tokens? rest).map (t :: ·) := by
  have nonempty : cs ≠ [] := by
    rintro rfl
    cases h
  rw [tokens?_eq_bind (by rw [start]; exact nonempty), start, h, Option.bind_some]

private theorem tokens?_nil : tokens? [] = some [] := rfl

theorem tokens?_of_gaps (h : ∀ c ∈ cs, isGap c = true) : tokens? cs = some [] := by
  have empty := List.dropWhile_eq_nil_iff.mpr h
  cases cs with
  | nil => rfl
  | cons c cs =>
    rw [tokens?, List.length_cons, tokensWithin, empty]

/-! ### Quoted texts -/

/-- What is read for a character between quotes. A control character without a letter of its own is
written as a code unit. -/
def pieceOf (c : Char) : Piece :=
  if c.toNat < 0x20 ∧ c.toNat ∉ [0x08, 0x09, 0x0A, 0x0C, 0x0D] then .unit c.toNat else .char c

def piecesOf (s : String) : List Piece := s.toList.map pieceOf

private theorem unit?_of_lt {n : Nat} (h : n < 0x20) : unit? '0' '0' (hexDigit (n / 16)) (hexDigit n) = some n := by
  decide +revert

private theorem pieces?_shortEscape {letter c : Char} (h : shortEscape? letter = some c) (rest : List Char) :
    pieces? ('\\' :: letter :: rest) = (pieces? rest).map fun found => (.char c :: found.1, found.2) := by
  have other : letter ≠ 'u' := by
    rintro rfl
    cases h
  rw [pieces?.eq_4 letter rest fun _ _ _ _ _ same => absurd same other, h]
  cases pieces? rest <;> rfl

private theorem pieces?_visible {c : Char} (visible : 0x20 ≤ c.toNat) (quote : c ≠ '"') (backslash : c ≠ '\\')
    (rest : List Char) :
    pieces? (c :: rest) = (pieces? rest).map fun found => (.char c :: found.1, found.2) := by
  rw [pieces?.eq_5 c rest quote (fun _ _ _ _ _ same => absurd same backslash)
    (fun _ _ same => absurd same backslash), if_neg (by simp [visible, backslash])]
  cases pieces? rest <;> rfl

private theorem pieces?_escapeChar (c : Char) (rest : List Char) :
    pieces? (escapeChar c ++ rest) =
      (pieces? rest).map fun found => (pieceOf c :: found.1, found.2) := by
  have named {d : Char} (h : c.toNat = d.toNat) : c = d := Char.toNat_inj.mp h
  unfold escapeChar
  split
  · subst_vars
    exact pieces?_shortEscape rfl rest
  split
  · subst_vars
    exact pieces?_shortEscape rfl rest
  split
  · obtain rfl := named (d := '\x08') ‹_›
    exact pieces?_shortEscape rfl rest
  split
  · obtain rfl := named (d := '\t') ‹_›
    exact pieces?_shortEscape rfl rest
  split
  · obtain rfl := named (d := '\n') ‹_›
    exact pieces?_shortEscape rfl rest
  split
  · obtain rfl := named (d := '\x0c') ‹_›
    exact pieces?_shortEscape rfl rest
  split
  · obtain rfl := named (d := '\r') ‹_›
    exact pieces?_shortEscape rfl rest
  rename_i quote backslash backspace tab lineFeed formFeed carriageReturn
  split
  · rename_i control
    have piece : pieceOf c = .unit c.toNat := by
      simp [pieceOf, control, backspace, tab, lineFeed, formFeed, carriageReturn]
    simp only [List.cons_append, List.nil_append]
    rw [piece, pieces?.eq_3, unit?_of_lt control]
    cases pieces? rest <;> rfl
  · rename_i visible
    have piece : pieceOf c = .char c := by simp [pieceOf, visible]
    rw [piece, List.singleton_append]
    exact pieces?_visible (Nat.not_lt.mp visible) quote backslash rest

private theorem pieces?_quoted (s : String) (rest : List Char) :
    pieces? (s.toList.flatMap escapeChar ++ '"' :: rest) = some (piecesOf s, rest) := by
  unfold piecesOf
  induction s.toList with
  | nil => rfl
  | cons c cs ih =>
    rw [List.flatMap_cons, List.append_assoc, pieces?_escapeChar, ih]
    rfl

private theorem token?_quoted (s : String) (rest : List Char) :
    token? ((quoted s).toList ++ rest) = some (.string (piecesOf s), rest) := by
  have written : (quoted s).toList ++ rest = '"' :: (s.toList.flatMap escapeChar ++ '"' :: rest) := by
    simp [quoted]
  rw [written, token?.eq_4, pieces?_quoted]
  rfl

private theorem join?_cons_unit {code : Nat} (h : code < 0xD800) (rest : List Piece) :
    Piece.join? (.unit code :: rest) = (Piece.join? rest).map (Char.ofNat code :: ·) := by
  have leading : isLeading code = false := by
    simp only [isLeading, Bool.and_eq_false_iff, decide_eq_false_iff_not]
    omega
  have trailing : isTrailing code = false := by
    simp only [isTrailing, Bool.and_eq_false_iff, decide_eq_false_iff_not]
    omega
  rcases rest with _ | ⟨c | unit, rest⟩ <;> simp [Piece.join?, leading, trailing]

private theorem join?_cons_pieceOf (c : Char) (rest : List Piece) :
    Piece.join? (pieceOf c :: rest) = (Piece.join? rest).map (c :: ·) := by
  unfold pieceOf
  split_ifs with control
  · rw [join?_cons_unit (by omega), Char.ofNat_toNat]
  · rfl

private theorem join?_piecesOf (s : String) : Piece.join? (piecesOf s) = some s.toList := by
  unfold piecesOf
  induction s.toList with
  | nil => rfl
  | cons c cs ih => rw [List.map_cons, join?_cons_pieceOf, ih, Option.map_some]

theorem text?_piecesOf (s : String) : Source.text? (.string (piecesOf s)) = some s := by
  rw [Source.text?, join?_piecesOf, Option.map_some, String.ofList_toList]

/-! ### Compact texts -/

mutual

def source : Json → Source
  | .null => .null
  | .bool b => .bool b
  | .number text => .number text.toList
  | .string s => .string (piecesOf s)
  | .array items => .array (sources items)
  | .object fields => .object (fieldSources fields)

def sources : List Json → List Source
  | [] => []
  | item :: others => item.source :: sources others

def fieldSources : List (String × Json) → List (List Piece × Source)
  | [] => []
  | (key, value) :: others => (piecesOf key, value.source) :: fieldSources others

end

mutual

/-- No number occurs in a value. The text of a number is kept as it was given, so it need not be one that
can be read. -/
def NumberFree : Json → Prop
  | .null | .bool _ | .string _ => True
  | .number _ => False
  | .array items => NumberFreeItems items
  | .object fields => NumberFreeFields fields

def NumberFreeItems : List Json → Prop
  | [] => True
  | item :: others => item.NumberFree ∧ NumberFreeItems others

def NumberFreeFields : List (String × Json) → Prop
  | [] => True
  | (_, value) :: others => value.NumberFree ∧ NumberFreeFields others

end

private theorem tokens?_punctuation {c : Char} {t : Token} (h : punctuation? c = some t) (rest : List Char) :
    tokens? (c :: rest) = (tokens? rest).map (t :: ·) := by
  have start : isGap c = false ∧ token? (c :: rest) = some (t, rest) := by
    unfold punctuation? at h
    split at h <;> cases h <;> exact ⟨by decide, by simp [token?, punctuation?]⟩
  apply tokens?_of_token? start.2
  simp [start.1]

private theorem tokens?_quoted (s : String) (rest : List Char) :
    tokens? ((quoted s).toList ++ rest) = (tokens? rest).map (.string (piecesOf s) :: ·) := by
  apply tokens?_of_token? (token?_quoted s rest)
  simp [quoted, isGap]

private theorem toList_intercalate_cons (separator first : String) (others : List String) :
    (String.intercalate separator (first :: others)).toList =
      first.toList ++ others.flatMap fun s => separator.toList ++ s.toList := by
  induction others generalizing first with
  | nil => simp
  | cons next others ih =>
    rw [String.intercalate_cons_cons, String.toList_append, ih, String.toList_append, List.flatMap_cons]
    simp only [List.append_assoc]

mutual

theorem tokens?_compact : ∀ (j : Json), j.NumberFree → ∀ rest,
    tokens? (j.compact.toList ++ rest) = (tokens? rest).map (j.source.tokens ++ ·)
  | .null, _, rest => tokens?_of_token? (token?.eq_1 rest) rfl
  | .bool true, _, rest => tokens?_of_token? (token?.eq_2 rest) rfl
  | .bool false, _, rest => tokens?_of_token? (token?.eq_3 rest) rfl
  | .string s, _, rest => tokens?_quoted s rest
  | .array [], _, rest => by
    have written : (compact (.array [])).toList ++ rest = '[' :: ']' :: rest := by
      simp [compact, compactItems]
    rw [written, tokens?_punctuation rfl, tokens?_punctuation rfl, Option.map_map]
    rfl
  | .array (item :: others), free, rest => by
    have written : (compact (.array (item :: others))).toList ++ rest = '[' :: (item.compact.toList ++
        ((compactItems others).flatMap (fun s => ",".toList ++ s.toList) ++ ']' :: rest)) := by
      simp [compact, compactItems, toList_intercalate_cons, -String.toList_intercalate]
    rw [written, tokens?_punctuation rfl, tokens?_compact item free.1, tokens?_moreItems others free.2,
      Option.map_map, Option.map_map]
    simp [source, sources, Source.tokens, Function.comp_def]
  | .object [], _, rest => by
    have written : (compact (.object [])).toList ++ rest = '\x7b' :: '\x7d' :: rest := by
      simp [compact, compactFields]
    rw [written, tokens?_punctuation rfl, tokens?_punctuation rfl, Option.map_map]
    rfl
  | .object ((key, value) :: others), free, rest => by
    have written : (compact (.object ((key, value) :: others))).toList ++ rest =
        '\x7b' :: ((quoted key).toList ++ ':' :: (value.compact.toList ++
          ((compactFields others).flatMap (fun s => ",".toList ++ s.toList) ++ '\x7d' :: rest))) := by
      simp [compact, compactFields, toList_intercalate_cons, -String.toList_intercalate]
    rw [written, tokens?_punctuation rfl, tokens?_quoted, tokens?_punctuation rfl,
      tokens?_compact value free.1, tokens?_moreFields others free.2]
    simp [source, fieldSources, Source.tokens, Function.comp_def]

theorem tokens?_moreItems : ∀ (items : List Json), NumberFreeItems items → ∀ rest,
    tokens? ((compactItems items).flatMap (fun s => ",".toList ++ s.toList) ++ ']' :: rest) =
      (tokens? rest).map (Source.moreItems (sources items) ++ ·)
  | [], _, rest => tokens?_punctuation rfl rest
  | item :: others, free, rest => by
    have written : (compactItems (item :: others)).flatMap (fun s => ",".toList ++ s.toList) ++ ']' :: rest =
        ',' :: (item.compact.toList ++
          ((compactItems others).flatMap (fun s => ",".toList ++ s.toList) ++ ']' :: rest)) := by
      simp [compactItems]
    rw [written, tokens?_punctuation rfl, tokens?_compact item free.1, tokens?_moreItems others free.2]
    simp [sources, Source.moreItems, Function.comp_def]

theorem tokens?_moreFields : ∀ (fields : List (String × Json)), NumberFreeFields fields → ∀ rest,
    tokens? ((compactFields fields).flatMap (fun s => ",".toList ++ s.toList) ++ '\x7d' :: rest) =
      (tokens? rest).map (Source.moreFields (fieldSources fields) ++ ·)
  | [], _, rest => tokens?_punctuation rfl rest
  | (key, value) :: others, free, rest => by
    have written :
        (compactFields ((key, value) :: others)).flatMap (fun s => ",".toList ++ s.toList) ++ '\x7d' :: rest =
          ',' :: ((quoted key).toList ++ ':' :: (value.compact.toList ++
            ((compactFields others).flatMap (fun s => ",".toList ++ s.toList) ++ '\x7d' :: rest))) := by
      simp [compactFields]
    rw [written, tokens?_punctuation rfl, tokens?_quoted, tokens?_punctuation rfl,
      tokens?_compact value free.1, tokens?_moreFields others free.2]
    simp [fieldSources, Source.moreFields, Function.comp_def]

end

theorem ofText?_compact {j : Json} (h : j.NumberFree) : Source.ofText? j.compact.toList = some j.source := by
  have cut := tokens?_compact j h []
  rw [List.append_nil, tokens?_nil, Option.map_some, List.append_nil] at cut
  obtain ⟨_, read⟩ := j.source.tokens.append_nil ▸ Source.reads_tokens j.source []
  rw [Source.ofText?, cut]
  simp only [Option.bind_eq_bind, Option.bind_some, read]
  rfl

/-! ### Compact texts are one line -/

private theorem lineFeed_notMem_quoted (s : String) : '\n' ∉ (quoted s).toList := by
  simp [quoted, lineFeed_notMem_escapeChar]

private theorem notMem_intercalate {c : Char} {separator : String} {texts : List String}
    (h : c ∉ separator.toList) (each : ∀ s ∈ texts, c ∉ s.toList) :
    c ∉ (String.intercalate separator texts).toList := by
  cases texts with
  | nil => simp
  | cons first others =>
    obtain ⟨first, others⟩ := List.forall_mem_cons.mp each
    rw [toList_intercalate_cons, List.mem_append, List.mem_flatMap]
    rintro (mem | ⟨s, hs, mem⟩)
    · exact first mem
    · exact (List.mem_append.mp mem).elim h (others s hs)

mutual

theorem lineFeed_notMem_compact : ∀ j : Json, j.NumberFree → '\n' ∉ j.compact.toList
  | .null, _ => by decide
  | .bool b, _ => by cases b <;> decide
  | .string s, _ => lineFeed_notMem_quoted s
  | .array items, free => by
    have inside : '\n' ∉ (String.intercalate "," (compactItems items)).toList :=
      notMem_intercalate (by decide) (lineFeed_notMem_compactItems items free)
    simp [compact, inside, -String.toList_intercalate]
  | .object fields, free => by
    have inside : '\n' ∉ (String.intercalate "," (compactFields fields)).toList :=
      notMem_intercalate (by decide) (lineFeed_notMem_compactFields fields free)
    simp [compact, inside, -String.toList_intercalate]

theorem lineFeed_notMem_compactItems : ∀ items : List Json, NumberFreeItems items →
    ∀ s ∈ compactItems items, '\n' ∉ s.toList
  | [], _ => by simp [compactItems]
  | item :: others, free => by
    rw [compactItems, List.forall_mem_cons]
    exact ⟨lineFeed_notMem_compact item free.1, lineFeed_notMem_compactItems others free.2⟩

theorem lineFeed_notMem_compactFields : ∀ fields : List (String × Json), NumberFreeFields fields →
    ∀ s ∈ compactFields fields, '\n' ∉ s.toList
  | [], _ => by simp [compactFields]
  | (key, value) :: others, free => by
    rw [compactFields, List.forall_mem_cons]
    refine ⟨?_, lineFeed_notMem_compactFields others free.2⟩
    simp [lineFeed_notMem_quoted, lineFeed_notMem_compact value free.1]

end

/-! ### Objects behind a torn text -/

private theorem exists_append_of_notMem {c : Char} {before behind : List Char} (text : List Char)
    (h : before ++ c :: behind = text ++ rest) (hc : c ∉ text) : ∃ left, rest = left ++ c :: behind := by
  rcases List.append_eq_append_iff.mp h with ⟨part, rfl, same⟩ | ⟨part, -, rfl⟩
  · cases part with
    | nil => exact ⟨[], same.symm⟩
    | cons d part =>
      cases same
      simp at hc
  · exact ⟨part, rfl⟩

private theorem brace_notMem_of_unit? {a b c d : Char} {code : Nat} (h : unit? a b c d = some code) :
    '\x7b' ∉ ['\\', 'u', a, b, c, d] := by
  simp only [unit?, Option.bind_eq_bind, Option.bind_eq_some_iff] at h
  obtain ⟨_, ha, _, hb, _, hc, _, hd, -⟩ := h
  have digit {e : Char} {n : Nat} (he : hexValue? e = some n) : '\x7b' ≠ e := by
    rintro rfl
    cases he
  simp [digit ha, digit hb, digit hc, digit hd]

/-- A quoted text that is still open where an object starts, ends at the first quote of the object, or
before the object. -/
private theorem rest_of_pieces? {cs behind : List Char} {pieces : List Piece}
    (h : pieces? (cs ++ '\x7b' :: '"' :: behind) = some (pieces, rest)) :
    (∃ left, rest = left ++ '\x7b' :: '"' :: behind) ∨ rest = behind := by
  generalize whole : cs ++ '\x7b' :: '"' :: behind = ws at h
  fun_induction pieces? ws generalizing cs pieces rest with
  | case1 => cases h
  | case2 final =>
    cases h
    exact .inl (exists_append_of_notMem ['"'] whole (by decide))
  | case3 a b c d tail ih =>
    simp only [Option.bind_eq_bind, Option.bind_eq_some_iff, Prod.exists] at h
    obtain ⟨code, digits, more, final, read, same⟩ := h
    cases same
    obtain ⟨left, rfl⟩ := exists_append_of_notMem ['\\', 'u', a, b, c, d] whole
      (brace_notMem_of_unit? digits)
    exact ih rfl read
  | case4 letter tail _ ih =>
    simp only [Option.bind_eq_bind, Option.bind_eq_some_iff, Prod.exists] at h
    obtain ⟨c, short, more, final, read, same⟩ := h
    cases same
    have other : '\x7b' ≠ letter := by
      rintro rfl
      cases short
    obtain ⟨left, rfl⟩ := exists_append_of_notMem ['\\', letter] whole (by simp [other])
    exact ih rfl read
  | case5 c tail => cases h
  | case6 c tail _ _ _ _ ih =>
    simp only [Option.bind_eq_bind, Option.bind_eq_some_iff, Prod.exists] at h
    obtain ⟨more, final, read, same⟩ := h
    cases same
    cases cs with
    | nil =>
      -- The brace is a character of the quoted text, and the quote behind it ends that text.
      cases whole
      cases read
      exact .inr rfl
    | cons d cs =>
      cases whole
      exact ih rfl read

private theorem rest_of_token? {c : Char} {cs behind : List Char} {t : Token}
    (h : token? (c :: cs ++ '\x7b' :: '"' :: behind) = some (t, rest)) :
    (∃ left, rest = left ++ '\x7b' :: '"' :: behind) ∨ rest = behind := by
  generalize whole : c :: cs ++ '\x7b' :: '"' :: behind = ws at h
  unfold token? at h
  split at h
  · cases h
    exact .inl (exists_append_of_notMem "null".toList whole (by decide))
  · cases h
    exact .inl (exists_append_of_notMem "true".toList whole (by decide))
  · cases h
    exact .inl (exists_append_of_notMem "false".toList whole (by decide))
  · obtain ⟨⟨pieces, final⟩, read, same⟩ := Option.map_eq_some_iff.mp h
    cases same
    cases whole
    exact rest_of_pieces? read
  · split at h
    · cases h
      cases whole
      exact .inl ⟨cs, rfl⟩
    · obtain ⟨⟨number, final⟩, read, same⟩ := Option.map_eq_some_iff.mp h
      cases same
      obtain ⟨start, -⟩ := startsNumber_of_number? read
      refine .inl (exists_append_of_notMem _ (whole.trans start.split) fun mem => ?_)
      exact absurd (start.chars _ mem) (by decide)
  · cases h

private theorem tokens?_dropWhile (cs : List Char) : tokens? (cs.dropWhile isGap) = tokens? cs := by
  by_cases empty : cs.dropWhile isGap = []
  · rw [empty, tokens?_of_gaps (List.dropWhile_eq_nil_iff.mp empty)]
    rfl
  · have again : (cs.dropWhile isGap).dropWhile isGap = cs.dropWhile isGap := List.dropWhile_idempotent _ cs
    rw [tokens?_eq_bind empty, tokens?_eq_bind (by rwa [again]), again]

private theorem tokens?_append_of_gaps (h : ∀ c ∈ cs, isGap c = true) (rest : List Char) :
    tokens? (cs ++ rest) = tokens? rest := by
  rw [← tokens?_dropWhile, List.dropWhile_append_of_pos h, tokens?_dropWhile]

theorem Source.ofText?_append_of_gaps (h : ∀ c ∈ cs, isGap c = true) (rest : List Char) :
    Source.ofText? (cs ++ rest) = Source.ofText? rest := by
  rw [Source.ofText?, Source.ofText?, tokens?_append_of_gaps h]

/-- The tokens of a text that goes on with an object are those of the object, behind others if anything
but gaps stands before it. Nothing in the object may be taken for a token from its first quote on. -/
private theorem exists_of_tokens?_append {cs behind : List Char} {ts : List Token} (word : tokens? behind = none)
    (h : tokens? (cs ++ '\x7b' :: '"' :: behind) = some ts) :
    ∃ us vs, ts = us ++ vs ∧ tokens? ('\x7b' :: '"' :: behind) = some vs ∧
      (us = [] → ∀ c ∈ cs, isGap c = true) := by
  induction hn : cs.length using Nat.strongRecOn generalizing cs ts with
  | ind n ih =>
    subst hn
    cases start : cs.dropWhile isGap with
    | nil =>
      have gaps := List.dropWhile_eq_nil_iff.mp start
      rw [tokens?_append_of_gaps gaps] at h
      exact ⟨[], ts, rfl, h, fun _ => gaps⟩
    | cons c ds =>
      have shorter := length_dropWhile_isGap_le cs
      have whole : (cs ++ '\x7b' :: '"' :: behind).dropWhile isGap = c :: ds ++ '\x7b' :: '"' :: behind := by
        rw [List.dropWhile_append, start]
        rfl
      rw [tokens?_eq_bind (by simp [whole]), whole] at h
      obtain ⟨⟨t, rest⟩, read, h⟩ := Option.bind_eq_some_iff.mp h
      obtain ⟨others, more, rfl⟩ := Option.map_eq_some_iff.mp h
      rcases rest_of_token? read with ⟨left, rfl⟩ | rfl
      · have taken := length_lt_of_token? read
        simp only [List.length_append, List.length_cons] at taken
        rw [start, List.length_cons] at shorter
        obtain ⟨us, vs, rfl, object, -⟩ := ih left.length (by omega) more rfl
        exact ⟨t :: us, vs, rfl, object, by simp⟩
      · rw [word] at more
        cases more

theorem ofText?_append_object {key : String} {value : Json} {fields : List (String × Json)}
    (free : (object ((key, value) :: fields)).NumberFree)
    (word : ∀ rest, tokens? (key.toList.flatMap escapeChar ++ rest) = none) {cs : List Char}
    (h : ¬ ∀ c ∈ cs, isGap c = true) :
    Source.ofText? (cs ++ (compact (.object ((key, value) :: fields))).toList) = none := by
  obtain ⟨behind, written, hidden⟩ : ∃ behind,
      (compact (.object ((key, value) :: fields))).toList = '\x7b' :: '"' :: behind ∧
        tokens? behind = none := by
    refine ⟨key.toList.flatMap escapeChar ++ '"' :: ':' :: (value.compact.toList ++
      ((compactFields fields).flatMap (fun s => ",".toList ++ s.toList) ++ ['\x7d'])), ?_, word _⟩
    simp [compact, compactFields, quoted, toList_intercalate_cons, -String.toList_intercalate]
  have own := tokens?_compact _ free []
  rw [List.append_nil, tokens?_nil, Option.map_some, List.append_nil, written] at own
  rw [written, Source.ofText?]
  cases cut : tokens? (cs ++ '\x7b' :: '"' :: behind) with
  | none => rfl
  | some ts =>
    obtain ⟨us, vs, rfl, same, gaps⟩ := exists_of_tokens?_append hidden cut
    rw [own] at same
    obtain rfl := Option.some.inj same
    simp only [Option.bind_eq_bind, Option.bind_some]
    cases read : Source.value? (us ++ (object ((key, value) :: fields)).source.tokens) with
    | none => rfl
    | some found =>
      obtain ⟨v, rest⟩ := found
      have taken := (Source.readsWritten _).value read
      simp only [Option.bind_some, List.isEmpty_iff, ite_eq_right_iff]
      intro all
      rw [all, List.append_nil] at taken
      exact absurd taken.symm (Source.tokens_ne_append_tokens _ v fun none_before => h (gaps none_before))

end Tutor.Json
