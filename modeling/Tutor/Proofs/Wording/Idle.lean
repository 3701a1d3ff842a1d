import Tutor.Proofs.Text.Ascii
import Tutor.Proofs.Text.Search
import Tutor.Proofs.Wording.Formula

/-!
The parts of a text and what they leave in its formula. Where a part ends at a character that is no letter
and the next one begins with a word that no phrase goes on with, differential quotients and idle words are
dropped from each of them alone.
-/

set_option autoImplicit false
set_option relaxedAutoImplicit false

namespace Tutor.Wording

open Text (any_getLast?_cons any_getLast?_of_cons dropBlanks dropBlanks_cons getLast?_cons_or isBlank isWord)

variable {cs front rest behind tail word letters : List Char} {ts us others : List Token}
  {phrase : List String} {c : Char} {before : Option Char}

/-! ### Differential quotients -/

/-- A quotient of differentials: `d/dx`, or with one more letter `dy/dx`. -/
inductive Differential : List Char → Prop
  | plain {v : Char} (hv : v.isLower = true) : Differential ['d', '/', 'd', v]
  | named {u v : Char} (hu : u.isLower = true) (hv : v.isLower = true) : Differential ['d', u, '/', 'd', v]

private theorem exists_differential_of_some (h : differential? before cs = some rest) :
    before.any isWord = false ∧ rest.head?.any isWord = false ∧
      ∃ quotient, Differential quotient ∧ quotient ++ rest = cs := by
  unfold differential? at h
  split at h
  · cases h
  rename_i edge
  have edge : before.any isWord = false := by simpa using edge
  dsimp only at h
  split at h
  · rename_i u behind
    split at h
    · rename_i letter
      split at h
      · split_ifs at h with fits
        obtain ⟨unknown, ends⟩ := Bool.and_eq_true_iff.mp fits
        cases h
        exact ⟨edge, by simpa using ends, _, .named letter unknown, rfl⟩
      · cases h
    · split at h
      · rename_i same
        cases same
        split_ifs at h with fits
        obtain ⟨unknown, ends⟩ := Bool.and_eq_true_iff.mp fits
        cases h
        exact ⟨edge, by simpa using ends, _, .plain unknown, rfl⟩
      · cases h
  · cases h

private theorem differential?_of_differential {quotient : List Char} (h : Differential quotient)
    (edge : before.any isWord = false) (ends : rest.head?.any isWord = false) :
    differential? before (quotient ++ rest) = some rest := by
  cases h with
  | plain hv => simp [differential?, edge, ends, isLetter, hv]
  | named hu hv => simp [differential?, edge, ends, isLetter, hu, hv]

private theorem Differential.exists_stroke {quotient : List Char} (h : Differential quotient) :
    ∃ top v, quotient = top ++ '/' :: ['d', v] ∧ (∀ c ∈ top, c.isAlpha = true) ∧ v.isAlpha = true := by
  cases h with
  | plain hv => exact ⟨['d'], _, rfl, List.forall_mem_singleton.mpr (by decide), Text.isAlpha_of_isLower hv⟩
  | named hu hv =>
    refine ⟨['d', _], _, rfl, ?_, Text.isAlpha_of_isLower hv⟩
    exact List.forall_mem_cons.mpr ⟨by decide, List.forall_mem_singleton.mpr (Text.isAlpha_of_isLower hu)⟩

private theorem Differential.head?_of_append (h : Differential (front ++ tail)) (nonempty : front ≠ [])
    (symbol : front.getLast?.any Char.isAlpha = false) : tail.head? = some 'd' := by
  obtain ⟨f, c, rfl⟩ := (List.eq_nil_or_concat front).resolve_left nonempty
  have other {d : Char} (letter : d.isAlpha = true) : d ≠ c := by
    rintro rfl
    simp [letter] at symbol
  obtain ⟨top, v, split, letters, last⟩ := h.exists_stroke
  rw [List.concat_eq_append, List.append_assoc, List.singleton_append] at split
  rcases List.append_eq_append_iff.mp split with ⟨more, rfl, same⟩ | ⟨more, rfl, same⟩
  · cases more with
    | nil => cases same; rfl
    | cons d more =>
      exact absurd (List.cons.inj same).1.symm (other (letters d (by simp)))
  · cases more with
    | nil => cases same; rfl
    | cons d more =>
      have behind : ['d', v] = more ++ c :: tail := (List.cons.inj same).2
      have mem : c ∈ ['d', v] := behind ▸ List.mem_append_right more List.mem_cons_self
      simp only [List.mem_cons, List.not_mem_nil, or_false] at mem
      rcases mem with same | same
      · exact absurd same.symm (other (by decide))
      · exact absurd same.symm (other last)

private theorem differential?_append (nonempty : front ≠ []) (symbol : front.getLast?.any Char.isAlpha = false)
    (other : tail.head? ≠ some 'd') :
    differential? before (front ++ tail) = (differential? before front).map (· ++ tail) := by
  cases found : differential? before (front ++ tail) with
  | some rest =>
    obtain ⟨edge, ends, quotient, shape, whole⟩ := exists_differential_of_some found
    rcases List.append_eq_append_iff.mp whole with ⟨after, rfl, rfl⟩ | ⟨later, rfl, rfl⟩
    · have alone : after.head?.any isWord = false := by
        cases after with
        | nil => rfl
        | cons c after => exact ends
      rw [differential?_of_differential shape edge alone]
      rfl
    · have first := shape.head?_of_append nonempty symbol
      exact absurd (by rw [List.head?_append, first]; rfl) other
  | none =>
    cases here : differential? before front with
    | none => rfl
    | some after =>
      obtain ⟨edge, ends, quotient, shape, rfl⟩ := exists_differential_of_some here
      cases after with
      | nil =>
        have whole : Differential (quotient ++ []) := by rwa [List.append_nil]
        cases whole.head?_of_append (List.append_nil quotient ▸ nonempty) (List.append_nil quotient ▸ symbol)
      | cons c after =>
        have again : differential? before (quotient ++ (c :: after ++ tail)) = some (c :: after ++ tail) :=
          differential?_of_differential shape edge ends
        rw [List.append_assoc, again] at found
        cases found

theorem dropDifferentials_append {skip : Nat} (short : skip ≤ front.length)
    (symbol : front.getLast?.any Char.isAlpha = false) (other : tail.head? ≠ some 'd') :
    dropDifferentials before skip (front ++ tail) =
      dropDifferentials before skip front ++ dropDifferentials (front.getLast?.or before) 0 tail := by
  induction front generalizing before skip with
  | nil =>
    obtain rfl := Nat.le_zero.mp short
    rfl
  | cons c front ih =>
    have later := any_getLast?_of_cons symbol
    rw [getLast?_cons_or]
    cases skip with
    | succ n =>
      rw [List.cons_append, dropDifferentials, dropDifferentials]
      exact ih (Nat.succ_le_succ_iff.mp short) later
    | zero =>
      have place : differential? before (c :: (front ++ tail)) =
          (differential? before (c :: front)).map (· ++ tail) :=
        differential?_append (List.cons_ne_nil c front) symbol other
      rw [List.cons_append, dropDifferentials, dropDifferentials, place]
      cases found : differential? before (c :: front) with
      | none => exact congrArg (c :: ·) (ih (Nat.zero_le _) later)
      | some after =>
        have count : (front ++ tail).length - (after ++ tail).length = front.length - after.length := by
          simp only [List.length_append]
          omega
        simp only [Option.map_some, count]
        exact congrArg (' ' :: ·) (ih (Nat.sub_le _ _) later)

private theorem differential?_eq_none_of_ne (h : c ≠ 'd') (cs : List Char) : differential? before (c :: cs) = none := by
  cases found : differential? before (c :: cs) with
  | none => rfl
  | some rest =>
    obtain ⟨-, -, quotient, shape, whole⟩ := exists_differential_of_some found
    cases shape <;> exact absurd (List.cons.inj whole).1.symm h

theorem differential?_eq_none_of_none (h : differential? none cs = none) (before : Option Char) :
    differential? before cs = none := by
  cases found : differential? before cs with
  | none => rfl
  | some rest =>
    obtain ⟨-, ends, quotient, shape, rfl⟩ := exists_differential_of_some found
    rw [differential?_of_differential shape rfl ends] at h
    cases h

theorem dropDifferentials_cons (h : differential? before (c :: cs) = none) :
    dropDifferentials before 0 (c :: cs) = c :: dropDifferentials (some c) 0 cs := by
  rw [dropDifferentials, h]

theorem dropDifferentials_append_of_notMem (h : 'd' ∉ front) :
    dropDifferentials before 0 (front ++ tail) =
      front ++ dropDifferentials (front.getLast?.or before) 0 tail := by
  induction front generalizing before with
  | nil => rfl
  | cons c front ih =>
    obtain ⟨other, later⟩ := List.ne_and_not_mem_of_not_mem_cons h
    rw [List.cons_append, dropDifferentials_cons (differential?_eq_none_of_ne other.symm _), ih later,
      getLast?_cons_or]
    rfl

theorem any_isAlpha_head?_dropDifferentials (h : cs.head?.any Char.isAlpha = false) (before : Option Char) :
    (dropDifferentials before 0 cs).head?.any Char.isAlpha = false := by
  cases cs with
  | nil => rfl
  | cons c cs =>
    rw [dropDifferentials]
    split
    · rfl
    · exact h

private theorem dropDifferentials_eq_nil_iff : dropDifferentials before 0 cs = [] ↔ cs = [] := by
  cases cs with
  | nil => simp [dropDifferentials]
  | cons c cs =>
    rw [dropDifferentials]
    split <;> simp

theorem any_isAlpha_getLast?_dropDifferentials (h : cs.getLast?.any Char.isAlpha = false)
    (before : Option Char) (skip : Nat) :
    (dropDifferentials before skip cs).getLast?.any Char.isAlpha = false := by
  induction cs generalizing before skip with
  | nil => rfl
  | cons c cs ih =>
    have later := any_getLast?_of_cons h
    cases skip with
    | succ n => exact ih later (some c) n
    | zero =>
      rw [dropDifferentials]
      split
      · exact any_getLast?_cons rfl (ih later (some c) _)
      · cases cs with
        | nil => exact h
        | cons d cs =>
          have more : dropDifferentials (some c) 0 (d :: cs) ≠ [] :=
            mt dropDifferentials_eq_nil_iff.mp (List.cons_ne_nil d cs)
          rw [List.getLast?_cons_of_ne_nil more]
          exact ih later (some c) 0

/-! ### Tokens between edges -/

private theorem tokens_cons_of_isBlank (h : isBlank c = true) (cs : List Char) :
    tokens (c :: cs) = .symbol c :: tokens cs := by
  simp [tokens, Text.isAlpha_of_isBlank h]

private theorem head?_tokens_of_letter (h : c.isAlpha = true) (cs : List Char) :
    ∃ letters others, tokens (c :: cs) = .word letters :: others := by
  rw [tokens, if_pos h]
  split <;> exact ⟨_, _, rfl⟩

theorem dropWhile_tokens (cs : List Char) : (tokens cs).dropWhile Token.isGap = tokens (dropBlanks cs) := by
  induction cs with
  | nil => rfl
  | cons c cs ih =>
    cases blank : isBlank c with
    | true =>
      have dropped : dropBlanks (c :: cs) = dropBlanks cs := List.dropWhile_cons_of_pos blank
      rw [tokens_cons_of_isBlank blank, dropped, ← ih]
      exact List.dropWhile_cons_of_pos blank
    | false =>
      rw [dropBlanks_cons blank]
      cases letter : c.isAlpha with
      | true =>
        obtain ⟨letters, others, cut⟩ := head?_tokens_of_letter letter cs
        rw [cut]
        rfl
      | false =>
        have cut : tokens (c :: cs) = .symbol c :: tokens cs := by simp [tokens, letter]
        rw [cut, List.dropWhile_cons_of_neg]
        simpa [Token.isGap] using blank

theorem tokens_word (nonempty : word ≠ []) (letters : ∀ c ∈ word, c.isAlpha = true)
    (ends : behind.head?.any Char.isAlpha = false) : tokens (word ++ behind) = .word word :: tokens behind := by
  have stop : ∀ letters others, tokens behind ≠ .word letters :: others := by
    intro letters others cut
    cases behind with
    | nil => cases cut
    | cons c behind =>
      have symbol : c.isAlpha = false := ends
      simp [tokens, symbol] at cut
  induction word with
  | nil => exact absurd rfl nonempty
  | cons c word ih =>
    obtain ⟨letter, others⟩ := List.forall_mem_cons.mp letters
    rw [List.cons_append, tokens, if_pos letter]
    cases word with
    | nil =>
      rw [List.nil_append]
      split
      · rename_i cut
        exact absurd cut (stop _ _)
      · rfl
    | cons d word =>
      rw [ih (List.cons_ne_nil d word) others]

theorem tokens_append_of_edge (edge : front.getLast?.any Char.isAlpha = false) (rest : List Char) :
    tokens (front ++ rest) = tokens front ++ tokens rest := by
  obtain rfl | ⟨f, c, rfl⟩ := List.eq_nil_or_concat front
  · rfl
  · have symbol : c.isAlpha = false := by simpa using edge
    have alone := tokens_append_cons symbol f []
    rw [List.concat_eq_append, List.append_assoc, List.singleton_append, tokens_append_cons symbol, alone]
    simp [tokens]

theorem tokens_blanks {blanks : List Char} (h : ∀ c ∈ blanks, isBlank c = true) (rest : List Char) :
    tokens (blanks ++ rest) = blanks.map .symbol ++ tokens rest := by
  induction blanks with
  | nil => rfl
  | cons c blanks ih =>
    obtain ⟨blank, others⟩ := List.forall_mem_cons.mp h
    rw [List.cons_append, tokens_cons_of_isBlank blank, ih others]
    rfl

/-! ### Idle words in parts of a text -/

def wordCount : List Token → Nat
  | [] => 0
  | .word _ :: ts => wordCount ts + 1
  | .symbol _ :: ts => wordCount ts

private theorem wordCount_dropWhile_isGap (ts : List Token) : wordCount (ts.dropWhile Token.isGap) = wordCount ts := by
  induction ts with
  | nil => rfl
  | cons t ts ih =>
    cases t with
    | word letters => rfl
    | symbol c =>
      rw [List.dropWhile_cons]
      split
      · exact ih
      · rfl

private theorem wordCount_of_afterPhrase? (h : afterPhrase? phrase ts = some us) :
    wordCount ts = phrase.length + wordCount us := by
  induction phrase generalizing ts with
  | nil => simp [Option.some.inj h]
  | cons w ws ih =>
    cases ts with
    | nil => cases h
    | cons t ts =>
      cases t with
      | symbol c => cases h
      | word letters =>
        rw [afterPhrase?] at h
        split_ifs at h with same last
        · cases h
          simp [List.isEmpty_iff.mp last, wordCount, Nat.add_comm]
        · have later := ih h
          rw [wordCount_dropWhile_isGap] at later
          simp only [wordCount, later, List.length_cons]
          omega

private theorem wordCount_of_startsClause (h : startsClause phrase ts = true) : phrase.length + 1 ≤ wordCount ts := by
  unfold startsClause at h
  split at h
  · rename_i rest after
    split at h
    · rename_i v final unknown
      have counted := wordCount_dropWhile_isGap rest
      rw [unknown, wordCount] at counted
      have whole := wordCount_of_afterPhrase? after
      omega
    · cases h
  · cases h

private theorem foldl_max_le {n m : Nat} {phrases : List (List String)} (start : m ≤ n)
    (h : ∀ phrase ∈ phrases, phrase.length ≤ n) : phrases.foldl (fun n f => max n f.length) m ≤ n := by
  induction phrases generalizing m with
  | nil => exact start
  | cons phrase phrases ih =>
    obtain ⟨here, later⟩ := List.forall_mem_cons.mp h
    exact ih (max_le start here) later

private theorem idleWords_le_wordCount (ts : List Token) : idleWords ts ≤ wordCount ts := by
  unfold idleWords
  split
  · rename_i clause found
    have starts := List.find?_some found
    exact wordCount_of_startsClause starts
  · apply foldl_max_le (Nat.zero_le _)
    intro filler mem
    obtain ⟨rest, after⟩ := Option.isSome_iff_exists.mp (List.mem_filter.mp mem).2
    have counted := wordCount_of_afterPhrase? after
    omega

def Ends (letters : List Char) (phrases : List (List String)) : Prop :=
  ∀ phrase ∈ phrases, ∀ w ∈ phrase.tail, w.toList ≠ letters

private theorem dropWhile_isGap_append (ts : List Token) (letters : List Char) (us : List Token) :
    (ts ++ .word letters :: us).dropWhile Token.isGap = ts.dropWhile Token.isGap ++ .word letters :: us := by
  induction ts with
  | nil => rfl
  | cons t ts ih =>
    rw [List.cons_append, List.dropWhile_cons, List.dropWhile_cons]
    split
    · exact ih
    · rfl

private theorem afterPhrase?_append (first : ts = [] → ∀ w ∈ phrase.head?, w.toList ≠ letters)
    (later : ∀ w ∈ phrase.tail, w.toList ≠ letters) (us : List Token) :
    afterPhrase? phrase (ts ++ .word letters :: us) =
      (afterPhrase? phrase ts).map (· ++ .word letters :: us) := by
  induction phrase generalizing ts with
  | nil => rfl
  | cons w ws ih =>
    cases ts with
    | nil =>
      have other : letters ≠ w.toList := Ne.symm (first rfl w rfl)
      rw [List.nil_append, afterPhrase?, if_neg other]
      rfl
    | cons t ts =>
      cases t with
      | symbol c => rfl
      | word own =>
        rw [List.cons_append, afterPhrase?, afterPhrase?, dropWhile_isGap_append]
        split_ifs
        · rfl
        · have next : ∀ w ∈ ws.head?, w.toList ≠ letters := fun w hw => later w (List.mem_of_head? hw)
          exact ih (fun _ => next) fun w hw => later w (List.mem_of_mem_tail hw)
        · rfl

private theorem startsClause_append (long : letters.length ≠ 1) (nonempty : ts ≠ [])
    (later : ∀ w ∈ phrase.tail, w.toList ≠ letters) (us : List Token) :
    startsClause phrase (ts ++ .word letters :: us) = startsClause phrase ts := by
  unfold startsClause
  rw [afterPhrase?_append (fun none => absurd none nonempty) later]
  cases afterPhrase? phrase ts with
  | none => rfl
  | some rest =>
    simp only [Option.map_some, dropWhile_isGap_append]
    cases rest.dropWhile Token.isGap with
    | nil =>
      match letters with
      | [] => rfl
      | [_] => exact absurd rfl long
      | _ :: _ :: _ => rfl
    | cons t rest =>
      match t with
      | .symbol _ => rfl
      | .word [] => rfl
      | .word [_] => rfl
      | .word (_ :: _ :: _) => rfl

private theorem idleWords_append (long : letters.length ≠ 1) (nonempty : ts ≠ [])
    (ends : Ends letters (unknownClauses ++ fillers)) (us : List Token) :
    idleWords (ts ++ .word letters :: us) = idleWords ts := by
  have clauses : unknownClauses.find? (fun clause => startsClause clause (ts ++ .word letters :: us)) =
      unknownClauses.find? fun clause => startsClause clause ts := by
    apply List.find?_congr
    intro clause mem
    exact startsClause_append long nonempty (ends clause (List.mem_append_left _ mem)) us
  have phrases : fillers.filter (fun filler => (afterPhrase? filler (ts ++ .word letters :: us)).isSome) =
      fillers.filter fun filler => (afterPhrase? filler ts).isSome := by
    apply List.filter_congr
    intro filler mem
    rw [afterPhrase?_append (fun none => absurd none nonempty) (ends filler (List.mem_append_right _ mem)),
      Option.isSome_map]
  rw [idleWords, idleWords, clauses, phrases]

theorem dropIdle_append_word (long : letters.length ≠ 1) (ends : Ends letters (unknownClauses ++ fillers))
    {idle : Nat} (enough : idle ≤ wordCount ts) (us : List Token) :
    dropIdle idle (ts ++ .word letters :: us) = dropIdle idle ts ++ dropIdle 0 (.word letters :: us) := by
  induction ts generalizing idle with
  | nil =>
    obtain rfl := Nat.le_zero.mp enough
    rfl
  | cons t ts ih =>
    cases t with
    | symbol c =>
      rw [List.cons_append, dropIdle, dropIdle, ih enough]
      rfl
    | word own =>
      have count : wordCount (.word own :: ts) = wordCount ts + 1 := rfl
      cases idle with
      | succ n =>
        rw [List.cons_append, dropIdle, dropIdle]
        exact ih (by omega)
      | zero =>
        have same : idleWords (.word own :: (ts ++ .word letters :: us)) = idleWords (.word own :: ts) :=
          idleWords_append long (List.cons_ne_nil _ ts) ends us
        have most := idleWords_le_wordCount (.word own :: ts)
        rw [List.cons_append, dropIdle, dropIdle, same]
        cases idle : idleWords (.word own :: ts) with
        | zero =>
          rw [ih (Nat.zero_le _)]
          rfl
        | succ n => exact ih (by omega)

theorem dropIdle_symbols (idle : Nat) (blanks : List Char) (ts : List Token) :
    dropIdle idle (blanks.map .symbol ++ ts) = blanks.map .symbol ++ dropIdle idle ts := by
  induction blanks with
  | nil => rfl
  | cons c blanks ih =>
    rw [List.map_cons, List.cons_append, dropIdle, ih]
    rfl

/-! ### What the parts of a text leave -/

def remains (before : Option Char) (cs : List Char) : List Char :=
  joinTokens (dropIdle 0 (tokens (dropDifferentials before 0 cs)))

theorem formula_eq_remains (text : String) :
    formula text = String.ofList (zeroForm (remains none (Text.lowerChars text.toList))) := rfl

theorem joinTokens_append_symbol (h : c.isDigit = false) (ts us : List Token) :
    joinTokens (ts ++ .symbol c :: us) = joinTokens ts ++ joinTokens (.symbol c :: us) := by
  induction ts with
  | nil => rfl
  | cons t ts ih =>
    have next : tokenText (ts ++ .symbol c :: us).head? t = tokenText ts.head? t := by
      cases ts with
      | nil => cases t <;> simp [tokenText, h]
      | cons => rfl
    rw [List.cons_append, joinTokens, joinTokens, next, ih, List.append_assoc]

theorem joinTokens_blanks {blanks : List Char} (h : ∀ c ∈ blanks, isBlank c = true) (us : List Token) :
    joinTokens (blanks.map .symbol ++ us) = joinTokens us := by
  induction blanks with
  | nil => rfl
  | cons c blanks ih =>
    obtain ⟨blank, others⟩ := List.forall_mem_cons.mp h
    rw [List.map_cons, List.cons_append, joinTokens, ih others]
    simp [tokenText, blank]

end Tutor.Wording
