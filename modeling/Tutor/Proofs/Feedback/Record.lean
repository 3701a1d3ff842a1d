import Tutor.Feedback.Record
import Tutor.Proofs.Instant.RoundTrip
import Tutor.Proofs.Json.Tokens

/-!
Feedback records as lines. The line of a record is read as that record, whatever texts the record holds,
and it is one line. A line that is written behind other text is read as nothing at all, unless the text is
no more than gaps.
-/

set_option autoImplicit false
set_option relaxedAutoImplicit false

namespace Tutor

open Json (NumberFree isGap)

/-! ### Parts of a written object -/

namespace Json

private theorem numberFree_ofStrings (items : List String) : (Json.ofStrings items).NumberFree := by
  show NumberFreeItems (items.map Json.string)
  induction items with
  | nil => trivial
  | cons item others ih => exact ⟨trivial, ih⟩

namespace Source

private theorem mapM_fieldSources (fields : List (String × Json)) :
    (fieldSources fields).mapM (fun (key, value) => return (← text? (.string key), value)) =
      some (fields.map fun (key, value) => (key, value.source)) := by
  induction fields with
  | nil => rfl
  | cons field others ih =>
    rw [fieldSources, List.mapM_cons, ih]
    simp [text?_piecesOf]

private theorem parts?_source (names : List String) (enough : Nat) (fields : List (String × Json)) :
    parts? names enough (Json.object fields).source = names.mapM fun name =>
      match (fields.map fun (key, value) => (key, value.source)).filter fun (key, _) => key == name with
      | [] => some none
      | [(_, value)] => some (some value)
      | _ => none := by
  rw [Json.source, parts?, mapM_fieldSources]
  rfl

@[simp] theorem text?_source (s : String) : text? (Json.string s).source = some s := text?_piecesOf s

@[simp] theorem name?_source (s : String) : name? (Json.string s).source = some s := text?_piecesOf s

private theorem optional?_source {α : Type} (read : Source → Option α) (s : String) :
    optional? read (some (Json.string s).source) = (read (Json.string s).source).map some := rfl

@[simp] theorem optional?_source_ofOption (s : Option String) :
    optional? text? (some (Json.ofOption .string s).source) = some s := by
  cases s with
  | none => rfl
  | some s => simp [Json.ofOption, optional?_source]

private theorem texts?_ofStrings (items : List String) : texts? (Json.ofStrings items).source = some items := by
  show (sources (items.map Json.string)).mapM text? = some items
  induction items with
  | nil => rfl
  | cons item others ih =>
    rw [List.map_cons, sources, List.mapM_cons, ih]
    simp

end Source

end Json

namespace SolutionView

theorem numberFree_toJson (view : SolutionView) : view.toJson.NumberFree := by
  unfold toJson
  cases view.refusal <;> simp [NumberFree, Json.NumberFreeFields, Json.numberFree_ofStrings]

theorem parts?_toJson (view : SolutionView) :
    view.toJson.source.parts? ["steps", "final_answer", "error"] 2 =
      some [some (Json.ofStrings view.steps).source, some (Json.string view.answer).source,
        view.refusal.map fun kind => (Json.string kind.name).source] := by
  unfold toJson
  cases view.refusal <;> simp [Json.Source.parts?_source]

theorem ofSource?_toJson (view : SolutionView) : ofSource? view.toJson.source = some view := by
  obtain ⟨steps, answer, refusal⟩ := view
  rw [ofSource?, parts?_toJson]
  cases refusal with
  | none => simp [Json.Source.texts?_ofStrings, Json.Source.optional?]
  | some kind => simp [Json.Source.texts?_ofStrings, Json.Source.optional?_source, RefusalKind.ofName?_name]

end SolutionView

namespace FeedbackRecord

theorem numberFree_toJson (record : FeedbackRecord) : record.toJson.NumberFree := by
  unfold toJson Json.ofOption
  cases record.comment <;> simp [NumberFree, Json.NumberFreeFields, SolutionView.numberFree_toJson]

theorem parts?_toJson (record : FeedbackRecord) :
    record.toJson.source.parts? ["timestamp", "question", "solution", "feedback", "comment"] 5 =
      some [some (Json.string record.time.text).source, some (Json.string record.question).source,
        some record.solution.toJson.source, some (Json.string record.feedback.name).source,
        some (Json.ofOption .string record.comment).source] := by
  simp [toJson, Json.Source.parts?_source]

theorem ofSource?_toJson (record : FeedbackRecord) : ofSource? record.toJson.source = some record := by
  obtain ⟨time, question, solution, feedback, comment⟩ := record
  rw [ofSource?, parts?_toJson]
  simp [Instant.ofText?_text, SolutionView.ofSource?_toJson, Feedback.ofName?_name]

theorem ofLine?_line (record : FeedbackRecord) : ofLine? record.line.toList = some record := by
  rw [ofLine?, line, Json.ofText?_compact record.numberFree_toJson, Option.bind_some, ofSource?_toJson]

theorem lineFeed_notMem_line (record : FeedbackRecord) : '\n' ∉ record.line.toList :=
  Json.lineFeed_notMem_compact _ record.numberFree_toJson

/-! ### Lines behind other text -/

private theorem tokens?_timestamp (rest : List Char) :
    Json.tokens? ("timestamp".toList.flatMap Json.escapeChar ++ rest) = none := by
  have letters : "timestamp".toList.flatMap Json.escapeChar = "timestamp".toList := by decide
  have cut : Json.token? ("timestamp".toList ++ rest) = none := rfl
  rw [letters, Json.tokens?_eq_bind (by simp [isGap])]
  exact congrArg (Option.bind · _) cut

theorem ofLine?_append_line (record : FeedbackRecord) {cs : List Char} (h : ¬ ∀ c ∈ cs, isGap c = true) :
    ofLine? (cs ++ record.line.toList) = none := by
  rw [ofLine?, line, toJson, Json.ofText?_append_object record.numberFree_toJson tokens?_timestamp h]
  rfl

theorem ofLine?_gaps_append_line (record : FeedbackRecord) {cs : List Char} (h : ∀ c ∈ cs, isGap c = true) :
    ofLine? (cs ++ record.line.toList) = some record := by
  have same : ofLine? (cs ++ record.line.toList) = ofLine? record.line.toList := by
    rw [ofLine?, ofLine?, Json.Source.ofText?_append_of_gaps h]
  rw [same, ofLine?_line]

theorem ofLine?_of_gaps {cs : List Char} (h : ∀ c ∈ cs, isGap c = true) : ofLine? cs = none := by
  rw [ofLine?, Json.Source.ofText?, Json.tokens?_of_gaps h]
  simp [Json.Source.value?]

end FeedbackRecord

end Tutor
