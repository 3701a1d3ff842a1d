import Tutor.Feedback.Log
import Tutor.Proofs.Feedback.Record

/-!
What a feedback log keeps. Behind a log that ends with a complete line, or with nothing more than gaps,
every new record becomes a line of its own, so that whole runs of the program lose nothing. Behind anything
else a record is written into the last line, which is no record then.
-/

set_option autoImplicit false
set_option relaxedAutoImplicit false

namespace Tutor.FeedbackLog

open Json (isGap)

def lastLine (log : FeedbackLog) : List Char :=
  log.lines.getLast (Text.pieces_ne_nil '\n' log.text.toList)

def completeEntries (log : FeedbackLog) : List FeedbackRecord :=
  log.lines.dropLast.filterMap FeedbackRecord.ofLine?

/-! ### One record -/

private theorem filterMap_singleton (line : List Char) :
    [line].filterMap FeedbackRecord.ofLine? = (FeedbackRecord.ofLine? line).toList := by
  rw [List.filterMap_eq_flatMap_toList, List.flatMap_singleton]

private theorem entries_eq_append (log : FeedbackLog) :
    log.entries = log.completeEntries ++ (FeedbackRecord.ofLine? log.lastLine).toList := by
  have split : log.lines = log.lines.dropLast ++ [log.lastLine] := (List.dropLast_concat_getLast _).symm
  rw [entries, split, List.filterMap_append, filterMap_singleton, completeEntries]

private theorem lines_append (log : FeedbackLog) (record : FeedbackRecord) :
    (log.append record).lines = log.lines.dropLast ++ [log.lastLine ++ record.line.toList] ++ [[]] := by
  have written : (log.append record).text.toList = (log.text.toList ++ record.line.toList) ++ '\n' :: [] := by
    simp [append, entryText]
  rw [lines, written, Text.pieces_append_separator, Text.pieces_append_of_notMem _ record.lineFeed_notMem_line]
  rfl

private theorem entries_append_eq (log : FeedbackLog) (record : FeedbackRecord) :
    (log.append record).entries = log.completeEntries ++
      (FeedbackRecord.ofLine? (log.lastLine ++ record.line.toList)).toList := by
  have nothing : FeedbackRecord.ofLine? [] = none := FeedbackRecord.ofLine?_of_gaps (by simp)
  rw [entries, lines_append, List.filterMap_append, List.filterMap_append, filterMap_singleton,
    filterMap_singleton, nothing, Option.toList_none, List.append_nil, completeEntries]

/-- A record is kept, and no other is lost, if nothing but gaps stands in the last line. -/
private theorem entries_append_of_gaps {log : FeedbackLog} (h : ∀ c ∈ log.lastLine, isGap c = true)
    (record : FeedbackRecord) : (log.append record).entries = log.entries ++ [record] := by
  rw [entries_append_eq, entries_eq_append, FeedbackRecord.ofLine?_gaps_append_line record h,
    FeedbackRecord.ofLine?_of_gaps h]
  simp

/-- A record that is written behind more than gaps is lost, and with it the one of the last line. -/
private theorem entries_append_of_open {log : FeedbackLog} (h : ¬ ∀ c ∈ log.lastLine, isGap c = true)
    (record : FeedbackRecord) : (log.append record).entries = log.completeEntries := by
  rw [entries_append_eq, FeedbackRecord.ofLine?_append_line record h, Option.toList_none, List.append_nil]

/-- What is appended to a log is read behind all that was read before, if the last line has nothing but
gaps. Otherwise only the records of the lines before it are left. -/
theorem entries_append (log : FeedbackLog) (record : FeedbackRecord) :
    (log.append record).entries =
      if log.lastLine.all isGap then log.entries ++ [record] else log.completeEntries := by
  split_ifs with h
  · exact entries_append_of_gaps (List.all_eq_true.mp h) record
  · exact entries_append_of_open (mt List.all_eq_true.mpr h) record

private theorem lines_of_line (record : FeedbackRecord) : (mk record.line).lines = [record.line.toList] :=
  Text.pieces_of_notMem record.lineFeed_notMem_line

private theorem entries_of_line (record : FeedbackRecord) : (mk record.line).entries = [record] := by
  rw [entries, lines_of_line, filterMap_singleton, FeedbackRecord.ofLine?_line, Option.toList_some]

private theorem entries_append_of_line (record next : FeedbackRecord) :
    ((mk record.line).append next).entries = [] := by
  have last : (mk record.line).lastLine = record.line.toList := by
    simp only [lastLine, lines_of_line, List.getLast_singleton]
  have held : ¬ ∀ c ∈ (mk record.line).lastLine, isGap c = true := by
    intro gaps
    have lost := FeedbackRecord.ofLine?_of_gaps gaps
    rw [last, FeedbackRecord.ofLine?_line] at lost
    cases lost
  rw [entries_append_of_open held, completeEntries, lines_of_line, List.dropLast_singleton,
    List.filterMap_nil]

theorem open_line_loses_records :
    let record : FeedbackRecord := .ofRemark
      { time :=
          ⟨⟨2024, 2, 29, by decide, by decide, by decide⟩,
            ⟨12, 0, 0, 0, by decide, by decide, by decide, by decide⟩⟩
        question := "solve x = 1"
        outcome := .error .unhandled
        feedback := .incorrect
        comment := none }
    let log : FeedbackLog := ⟨record.line⟩
    (log.append record).entries ≠ log.entries ++ [record] := by
  intro record log
  have before : log.entries = [record] := entries_of_line record
  have after : (log.append record).entries = [] := entries_append_of_line record record
  simp [before, after]

private theorem lastLine_append (log : FeedbackLog) (record : FeedbackRecord) : (log.append record).lastLine = [] := by
  simp only [lastLine, lines_append, List.getLast_concat]

/-! ### Runs -/

private theorem lastLine_eq_nil {log : FeedbackLog} (h : log.text = "" ∨ log.text.toList.getLast? = some '\n') :
    log.lastLine = [] := by
  rcases h with empty | ended
  · simp [lastLine, lines, empty, Text.pieces]
  · obtain ⟨before, whole⟩ := List.getLast?_eq_some_iff.mp ended
    simp only [lastLine, lines, whole, Text.pieces_append_separator, Text.pieces, List.getLast_concat]

private theorem entries_foldl_record_of_lastLine {log : FeedbackLog} (h : log.lastLine = []) (remarks : List Remark) :
    (remarks.foldl record log).entries = log.entries ++ remarks.map .ofRemark := by
  induction remarks generalizing log with
  | nil => simp
  | cons remark others ih =>
    have kept : (log.record remark).entries = log.entries ++ [.ofRemark remark] :=
      entries_append_of_gaps (by simp [h]) _
    have ended : (log.record remark).lastLine = [] := lastLine_append log _
    rw [List.foldl_cons, ih ended, kept, List.append_assoc, List.map_cons,
      List.singleton_append]

end Tutor.FeedbackLog
