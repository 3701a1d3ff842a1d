import Std.Time.DateTime.Timestamp
import Tutor.CommandLine
import Tutor.Feedback.Log

/-!
The program: solves one problem and prints the report.
-/

set_option autoImplicit false
set_option relaxedAutoImplicit false

namespace Tutor

def presentInstant : IO (Option Instant) := do
  let now ← Std.Time.Timestamp.now
  return Instant.ofNanoseconds? now.toNanosecondsSinceUnixEpoch.val.toNat

def keep (note : CommandLine.Note) : IO Unit := do
  match ← presentInstant with
  | some now =>
    let log ← IO.FS.Handle.mk note.path .append
    log.putStr (FeedbackLog.entryText (note.record now))
    log.flush
  | none => return ()

end Tutor

open Tutor

/-- Runs the program; a note that cannot be kept is lost. -/
def main (arguments : List String) : IO UInt32 := do
  let keys := [Settings.unknownKey, Settings.depthKey, Settings.feedbackKey]
  let environment ← keys.mapM fun key => return (key, ← IO.getEnv key)
  let run := CommandLine.run (fun key => (environment.lookup key).join) arguments
  IO.print run.output
  IO.eprint run.complaint
  if let some note := run.note then
    try keep note
    catch _ => IO.eprintln "the feedback was not kept"
  return UInt32.ofNat run.exitCode
