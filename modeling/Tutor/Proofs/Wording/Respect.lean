import Tutor.Proofs.Wording.Idle
import Tutor.Wording.Clause

/-!
Clauses that name the variable of a differentiation, with any blanks between their words. The reader of
formulas drops such a clause however its words are separated. The solver finds the variable only behind
words with single blanks, and only where no word character touches the clause.
-/

set_option autoImplicit false
set_option relaxedAutoImplicit false

namespace Tutor.Wording

open Text (afterOneOf? dropBlanks dropBlanks_cons isBlank isWord)

variable {behind front gap rest word : List Char} {c v : Char}

/-! ### Gaps between words -/

structure IsGap (cs : List Char) : Prop where
  ne_nil : cs ≠ []
  isBlank_of_mem : ∀ c ∈ cs, isBlank c = true

namespace IsGap

theorem singleton (h : isBlank c = true) : IsGap [c] :=
  ⟨List.cons_ne_nil c [], List.forall_mem_singleton.mpr h⟩

theorem cons (hc : isBlank c = true) (h : IsGap gap) : IsGap (c :: gap) :=
  ⟨List.cons_ne_nil c gap, List.forall_mem_cons.mpr ⟨hc, h.isBlank_of_mem⟩⟩

private theorem any_isAlpha_head? (h : IsGap gap) (rest : List Char) :
    (gap ++ rest).head?.any Char.isAlpha = false := by
  obtain ⟨c, cs, rfl⟩ := List.exists_cons_of_ne_nil h.ne_nil
  exact Text.isAlpha_of_isBlank (h.isBlank_of_mem c List.mem_cons_self)

private theorem tokens_append_word (h : IsGap gap) (nonempty : word ≠ []) (letters : ∀ c ∈ word, c.isAlpha = true)
    (ends : rest.head?.any Char.isAlpha = false) :
    tokens (gap ++ (word ++ rest)) = gap.map .symbol ++ .word word :: tokens rest := by
  rw [tokens_blanks h.isBlank_of_mem, tokens_word nonempty letters ends]

private theorem dropWhile_isGap (h : IsGap gap) (letters : List Char) (ts : List Token) :
    (gap.map Token.symbol ++ .word letters :: ts).dropWhile Token.isGap = .word letters :: ts := by
  rw [List.dropWhile_append_of_pos]
  · rfl
  · intro t mem
    obtain ⟨c, hc, rfl⟩ := List.mem_map.mp mem
    exact h.isBlank_of_mem c hc

private theorem blank_cons_prefix_iff (h : IsGap gap) (visible : isBlank c = false) :
    ' ' :: c :: word <+: gap ++ rest ↔ gap = [' '] ∧ c :: word <+: rest := by
  constructor
  · intro start
    obtain ⟨d, ds, rfl⟩ := List.exists_cons_of_ne_nil h.ne_nil
    obtain ⟨rfl, later⟩ := List.cons_prefix_cons.mp start
    cases ds with
    | nil => exact ⟨rfl, later⟩
    | cons e ds =>
      obtain ⟨rfl, -⟩ := List.cons_prefix_cons.mp later
      rw [h.isBlank_of_mem c (by simp)] at visible
      cases visible
  · rintro ⟨rfl, start⟩
    exact List.cons_prefix_cons.mpr ⟨rfl, start⟩

end IsGap

/-! ### Clauses -/

/-- A clause `with respect to v` as it may be written: with any blanks between its words. -/
structure RespectClause where
  first : List Char
  second : List Char
  third : List Char
  unknown : Char
  first_gap : IsGap first
  second_gap : IsGap second
  third_gap : IsGap third
  unknown_lower : unknown.isLower = true

namespace RespectClause

variable (clause : RespectClause)

def words : List Char :=
  "with".toList ++ (clause.first ++ ("respect".toList ++ (clause.second ++ ("to".toList ++ clause.third))))

def chars : List Char := clause.words ++ [clause.unknown]

def SingleSpaced : Prop := clause.first = [' '] ∧ clause.second = [' ']

instance : Decidable clause.SingleSpaced :=
  inferInstanceAs (Decidable (_ ∧ _))

private theorem isAlpha_unknown : clause.unknown.isAlpha = true := Text.isAlpha_of_isLower clause.unknown_lower

private theorem chars_append (behind : List Char) :
    clause.chars ++ behind = "with".toList ++ (clause.first ++ ("respect".toList ++ (clause.second ++
      ("to".toList ++ (clause.third ++ ([clause.unknown] ++ behind)))))) := by
  simp [chars, words]

private theorem tokens_chars (ends : behind.head?.any Char.isAlpha = false) :
    tokens (clause.chars ++ behind) =
      .word "with".toList :: (clause.first.map .symbol ++ .word "respect".toList ::
        (clause.second.map .symbol ++ .word "to".toList ::
          (clause.third.map .symbol ++ .word [clause.unknown] :: tokens behind))) := by
  have unknown : ∀ c ∈ [clause.unknown], c.isAlpha = true :=
    List.forall_mem_singleton.mpr clause.isAlpha_unknown
  rw [chars_append, tokens_word (by decide) (by simp) (clause.first_gap.any_isAlpha_head? _),
    clause.first_gap.tokens_append_word (by decide) (by simp) (clause.second_gap.any_isAlpha_head? _),
    clause.second_gap.tokens_append_word (by decide) (by simp) (clause.third_gap.any_isAlpha_head? _),
    clause.third_gap.tokens_append_word (List.cons_ne_nil _ []) unknown ends]

private theorem startsClause_chars (ends : behind.head?.any Char.isAlpha = false) :
    startsClause ["with", "respect", "to"] (tokens (clause.chars ++ behind)) = true := by
  simp [clause.tokens_chars ends, startsClause, afterPhrase?, clause.first_gap.dropWhile_isGap,
    clause.second_gap.dropWhile_isGap, clause.third_gap.dropWhile_isGap]

/-! ### The variable that the solver finds -/

private theorem singleSpaced_iff_prefix (behind : List Char) :
    "with respect to".toList <+: clause.chars ++ behind ↔ clause.SingleSpaced := by
  have words : "with respect to".toList = "with".toList ++ ' ' :: 'r' :: "espect to".toList := rfl
  have words' : 'r' :: "espect to".toList = "respect".toList ++ ' ' :: 't' :: ['o'] := rfl
  rw [chars_append, words, List.prefix_append_right_inj,
    clause.first_gap.blank_cons_prefix_iff (by decide), words', List.prefix_append_right_inj,
    clause.second_gap.blank_cons_prefix_iff (by decide), SingleSpaced]
  simp

private theorem afterOneOf?_chars (behind : List Char) :
    afterOneOf? ["with respect to", "wrt"] (clause.chars ++ behind) =
      if clause.SingleSpaced then some (clause.third ++ clause.unknown :: behind) else none := by
  have second_fails : Text.after? "wrt" (clause.chars ++ behind) = none := rfl
  rw [afterOneOf?, List.findSome?_cons, List.findSome?_cons, List.findSome?_nil, second_fails]
  split_ifs with spaced
  · have written : clause.chars ++ behind =
        "with respect to".toList ++ (clause.third ++ clause.unknown :: behind) := by
      simp [chars_append, spaced.1, spaced.2]
    rw [written, Text.after?_append]
  · have first_fails : Text.after? "with respect to" (clause.chars ++ behind) = none := by
      rw [Text.after?, if_neg]
      rwa [List.isPrefixOf_iff_prefix, singleSpaced_iff_prefix]
    rw [first_fails]

theorem respect?_chars (before : Option Char) (behind : List Char) :
    respect? before (clause.chars ++ behind) =
      if clause.SingleSpaced ∧ before.any isWord = false ∧ behind.head?.any isWord = false then
        some clause.unknown
      else none := by
  obtain ⟨gap, gaps, third⟩ := List.exists_cons_of_ne_nil clause.third_gap.ne_nil
  have blank : isBlank gap = true := clause.third_gap.isBlank_of_mem gap (by simp [third])
  have unknown : dropBlanks (clause.third ++ clause.unknown :: behind) = clause.unknown :: behind := by
    rw [dropBlanks, List.dropWhile_append_of_pos clause.third_gap.isBlank_of_mem]
    exact dropBlanks_cons (Text.isBlank_of_isLower clause.unknown_lower) behind
  rw [respect?, afterOneOf?_chars]
  cases edge : before.any isWord with
  | true => simp
  | false =>
    by_cases spaced : clause.SingleSpaced
    · rw [third, List.cons_append] at unknown ⊢
      cases ends : behind.head?.any isWord <;>
        simp [spaced, unknown, blank, isLetter, clause.unknown_lower, ends]
    · simp [spaced]

end RespectClause

/-! ### Places of clauses -/

/-- A clause that names the unknown stands at a place of a text, as whole words. -/
def ClauseAt (front rest : List Char) : Prop :=
  front.getLast?.any Char.isAlpha = false ∧ ∃ clause ∈ unknownClauses, startsClause clause (tokens rest) = true

instance (front rest : List Char) : Decidable (ClauseAt front rest) :=
  inferInstanceAs (Decidable (_ ∧ ∃ clause ∈ unknownClauses, _))

private theorem any_isAlpha_of_any_isWord {o : Option Char} (h : o.any isWord = false) :
    o.any Char.isAlpha = false := by
  cases o with
  | none => rfl
  | some c =>
    rw [Option.any_some, Bool.eq_false_iff] at h ⊢
    exact mt Text.isWord_of_isAlpha h

theorem clauseAt_of_respect? (h : respect? front.getLast? rest = some v) : ClauseAt front rest := by
  unfold respect? at h
  split at h
  · cases h
  rename_i edge
  obtain ⟨behind, words, h⟩ := Option.bind_eq_some_iff.mp h
  split at h
  · rename_i gap tail u final unknown
    split_ifs at h with fits
    simp only [Bool.and_eq_true, Bool.not_eq_true'] at fits
    obtain ⟨⟨blank, letter⟩, ends⟩ := fits
    refine ⟨any_isAlpha_of_any_isWord (Bool.not_eq_true _ ▸ edge), ?_⟩
    obtain ⟨word, mem, rfl⟩ := Text.exists_append_of_afterOneOf? words
    simp only [List.mem_cons, List.not_mem_nil, or_false] at mem
    rcases mem with rfl | rfl
    · refine ⟨["with", "respect", "to"], by decide, ?_⟩
      -- With its single blanks this is one way to write the clause.
      let clause : RespectClause :=
        { first := [' ']
          second := [' ']
          third := (gap :: tail).takeWhile isBlank
          unknown := u
          first_gap := .singleton (by decide)
          second_gap := .singleton (by decide)
          third_gap := ⟨by simp [blank], fun c hc => List.mem_takeWhile_imp hc⟩
          unknown_lower := letter }
      have third : clause.third ++ u :: final = gap :: tail := by
        rw [← unknown]
        exact List.takeWhile_append_dropWhile
      have written : clause.chars ++ final = "with respect to".toList ++ gap :: tail := by
        rw [clause.chars_append, ← third]
        rfl
      rw [← written]
      exact clause.startsClause_chars (any_isAlpha_of_any_isWord ends)
    · refine ⟨["wrt"], by decide, ?_⟩
      have first : tokens ("wrt".toList ++ gap :: tail) = .word "wrt".toList :: tokens (gap :: tail) :=
        tokens_word (by decide) (by simp) (Text.isAlpha_of_isBlank blank)
      have last : tokens (u :: final) = .word [u] :: tokens final :=
        tokens_word (List.cons_ne_nil u []) (List.forall_mem_singleton.mpr (Text.isAlpha_of_isLower letter))
          (any_isAlpha_of_any_isWord ends)
      rw [first]
      simp [startsClause, afterPhrase?, dropWhile_tokens, unknown, last]
  · cases h

/-! ### The formula without a clause -/

namespace RespectClause

variable (clause : RespectClause)

def gaps : List Char := clause.first ++ (clause.second ++ clause.third)

private theorem isBlank_of_mem_gaps : ∀ c ∈ clause.gaps, isBlank c = true :=
  List.forall_mem_append.mpr ⟨clause.first_gap.isBlank_of_mem,
    List.forall_mem_append.mpr ⟨clause.second_gap.isBlank_of_mem, clause.third_gap.isBlank_of_mem⟩⟩

private theorem dropIdle_tokens_chars (ends : behind.head?.any Char.isAlpha = false) :
    dropIdle 0 (tokens (clause.chars ++ behind)) =
      clause.gaps.map .symbol ++ dropIdle 0 (tokens behind) := by
  have idle : idleWords (tokens (clause.chars ++ behind)) = 4 := by
    have first : unknownClauses.find? (fun phrase => startsClause phrase (tokens (clause.chars ++ behind))) =
        some ["with", "respect", "to"] := by
      rw [unknownClauses, List.find?_cons, clause.startsClause_chars ends]
    rw [idleWords, first]
    rfl
  rw [clause.tokens_chars ends] at idle ⊢
  rw [dropIdle, idle]
  simp only [dropIdle_symbols, dropIdle, gaps, List.map_append, List.append_assoc]

private theorem dropIdle_tokens (starts : front.getLast?.any Char.isAlpha = false)
    (ends : behind.head?.any Char.isAlpha = false) :
    dropIdle 0 (tokens (front ++ (clause.chars ++ behind))) =
      dropIdle 0 (tokens front) ++ (clause.gaps.map .symbol ++ dropIdle 0 (tokens behind)) := by
  have unfinished : Ends "with".toList (unknownClauses ++ fillers) := by
    unfold Ends
    decide
  rw [tokens_append_of_edge starts, clause.tokens_chars ends,
    dropIdle_append_word (by decide) unfinished (Nat.zero_le _), ← clause.tokens_chars ends,
    clause.dropIdle_tokens_chars ends]

private theorem d_notMem_words : 'd' ∉ clause.words := by
  have visible {gap : List Char} (h : IsGap gap) : 'd' ∉ gap := fun mem => by
    cases h.isBlank_of_mem 'd' mem
  simp [words, visible clause.first_gap, visible clause.second_gap, visible clause.third_gap]

/-- A clause whose variable begins no differential quotient leaves nothing in a formula, and what stands
before and behind it leaves what it leaves without the clause. -/
theorem remains_append (starts : front.getLast?.any Char.isAlpha = false)
    (ends : behind.head?.any Char.isAlpha = false)
    (lone : differential? none (clause.unknown :: behind) = none) :
    remains none (front ++ (clause.chars ++ behind)) =
      remains none front ++ remains (some clause.unknown) behind := by
  have quotients : dropDifferentials none 0 (front ++ (clause.chars ++ behind)) =
      dropDifferentials none 0 front ++
        (clause.chars ++ dropDifferentials (some clause.unknown) 0 behind) := by
    have first : (clause.chars ++ behind).head? ≠ some 'd' := by simp [chars, words]
    rw [dropDifferentials_append (Nat.zero_le _) starts first, chars, List.append_assoc,
      dropDifferentials_append_of_notMem clause.d_notMem_words, List.append_assoc, List.singleton_append,
      dropDifferentials_cons (differential?_eq_none_of_none lone _)]
    rfl
  obtain ⟨gap, gaps, some_gap⟩ := List.exists_cons_of_ne_nil clause.first_gap.ne_nil
  have no_digit : gap.isDigit = false := by
    have blank := clause.first_gap.isBlank_of_mem gap (by simp [some_gap])
    rw [Bool.eq_false_iff]
    intro digit
    rw [Text.isBlank_of_isDigit digit] at blank
    cases blank
  have blanks : clause.gaps = gap :: (gaps ++ (clause.second ++ clause.third)) := by
    simp [RespectClause.gaps, some_gap]
  rw [remains, quotients, clause.dropIdle_tokens (any_isAlpha_getLast?_dropDifferentials starts none 0)
    (any_isAlpha_head?_dropDifferentials ends _), blanks, List.map_cons, List.cons_append,
    joinTokens_append_symbol no_digit, ← List.cons_append, ← List.map_cons, ← blanks,
    joinTokens_blanks clause.isBlank_of_mem_gaps]
  rfl

end RespectClause

end Tutor.Wording
