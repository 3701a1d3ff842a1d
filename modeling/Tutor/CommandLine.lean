import Tutor.Feedback.Record
import Tutor.Report
import Tutor.Settings

/-!
The command line: what its arguments ask for, and what a run prints, with which code it ends, and which
record it adds to which feedback log. Reading the environment and the clock and writing to files is left
to the program.
-/

set_option autoImplicit false
set_option relaxedAutoImplicit false

namespace Tutor.CommandLine

inductive ValueOption where
  | unknown
  | feedback
  | comment
  | feedbackLog
  deriving DecidableEq, Repr

def ValueOption.name : ValueOption → String
  | .unknown => "variable"
  | .feedback => "feedback"
  | .comment => "comment"
  | .feedbackLog => "feedback-log"

def ValueOption.ofName? (name : String) : Option ValueOption :=
  [unknown, feedback, comment, feedbackLog].find? fun option => option.name == name

structure Options where
  words : List String := []
  json : Bool := false
  unknown : Option String := none
  feedback : Option Feedback := none
  comment : Option String := none
  feedbackPath : Option String := none
  verbosity : Nat := 0
  deriving DecidableEq, Repr

inductive UsageError where
  | unknownOption (argument : String)
  | missingValue (option : ValueOption)
  | needlessValue (name : String)
  | badValue (option : ValueOption) (value : String)
  | repeated (name : String)
  | missingProblem
  | commentWithoutFeedback
  deriving DecidableEq, Repr

def UsageError.message : UsageError → String
  | .unknownOption argument => "unexpected argument '" ++ argument ++ "' found"
  | .missingValue option => "a value is required for '--" ++ option.name ++ "' but none was supplied"
  | .needlessValue name => "the option '--" ++ name ++ "' takes no value"
  | .badValue option value => "invalid value '" ++ value ++ "' for '--" ++ option.name ++ "'"
  | .repeated name => "the argument '--" ++ name ++ "' cannot be used multiple times"
  | .missingProblem => "the problem text is missing"
  | .commentWithoutFeedback => "a comment needs feedback"

inductive Stop where
  | help
  | version
  | usage (error : UsageError)
  deriving DecidableEq, Repr

def once {α : Type} (option : ValueOption) (old : Option α) (value : α) : Except Stop (Option α) :=
  match old with
  | none => .ok (some value)
  | some _ => .error (.usage (.repeated option.name))

def setValue (options : Options) (option : ValueOption) (value : String) : Except Stop Options :=
  let bad : Except Stop Options := .error (.usage (.badValue option value))
  match option with
  | .unknown =>
    match Settings.letter? value with
    | some letter => do return { options with unknown := ← once option options.unknown letter }
    | none => bad
  | .feedback =>
    match Feedback.ofText value with
    | .ok feedback => do return { options with feedback := ← once option options.feedback feedback }
    | .error _ => bad
  | .comment => do return { options with comment := ← once option options.comment value }
  | .feedbackLog =>
    if value.isEmpty then bad
    else do return { options with feedbackPath := ← once option options.feedbackPath value }

def setFlag (options : Options) (name : String) : Except Stop Options :=
  if name = "json" then
    if options.json then .error (.usage (.repeated name)) else .ok { options with json := true }
  else if name = "verbose" then .ok { options with verbosity := options.verbosity + 1 }
  else if name = "help" then .error .help
  else if name = "version" then .error .version
  else .error (.usage (.unknownOption ("--" ++ name)))

def longName? : Char → Option String
  | 'v' => some "verbose"
  | 'h' => some "help"
  | 'V' => some "version"
  | _ => none

/-- Handles letters behind a single dash, each of them an option. -/
def setLetters (options : Options) : List Char → Except Stop Options
  | [] => .ok options
  | c :: rest =>
    match longName? c with
    | some name => do setLetters (← setFlag options name) rest
    | none => .error (.usage (.unknownOption ("-" ++ String.singleton c)))

inductive Argument where
  | word
  /-- Two dashes: all that follows are words. -/
  | wordsFollow
  | letters (letters : List Char)
  | long (name : String) (value : Option String)
  deriving DecidableEq, Repr

/-- The form of an argument. A single dash is a word. -/
def Argument.ofText (text : String) : Argument :=
  match text.toList with
  | ['-', '-'] => .wordsFollow
  | '-' :: '-' :: rest =>
    let name := String.ofList (rest.takeWhile (· != '='))
    match rest.dropWhile (· != '=') with
    | [] => .long name none
    | _ :: value => .long name (some (String.ofList value))
  | '-' :: c :: rest => .letters (c :: rest)
  | _ => .word

def addWords (options : Options) (words : List String) : Options :=
  { options with words := options.words ++ words }

/-- Reads arguments from left to right. An option takes its value from behind an equals sign or from the
next argument, which then has to be a word. -/
def scan (options : Options) : List String → Except Stop Options
  | [] => .ok options
  | argument :: rest =>
    match Argument.ofText argument with
    | .word => scan (addWords options [argument]) rest
    | .wordsFollow => .ok (addWords options rest)
    | .letters letters => do scan (← setLetters options letters) rest
    | .long name value =>
      match ValueOption.ofName? name, value with
      | some option, some value => do scan (← setValue options option value) rest
      | some option, none =>
        match rest with
        | value :: rest =>
          if Argument.ofText value = .word then do scan (← setValue options option value) rest
          else .error (.usage (.missingValue option))
        | [] => .error (.usage (.missingValue option))
      | none, none => do scan (← setFlag options name) rest
      | none, some _ =>
        let flags := ["json", "verbose", "help", "version"]
        .error (.usage
          (if flags.contains name then .needlessValue name else .unknownOption ("--" ++ name)))

/-- What arguments ask for; there has to be a problem, and a comment needs feedback to go with. -/
def Options.ofArguments (arguments : List String) : Except Stop Options := do
  let options ← scan {} arguments
  if options.words.isEmpty then .error (.usage .missingProblem)
  else if options.comment.isSome && options.feedback.isNone then
    .error (.usage .commentWithoutFeedback)
  else .ok options

def Options.settings (options : Options) (settings : Settings) : Settings :=
  { solver := { settings.solver with unknown := options.unknown.getD settings.solver.unknown }
    feedbackPath := options.feedbackPath.getD settings.feedbackPath }

/-- A record for a feedback log, of which only the time is open. -/
structure Note where
  path : String
  record : Instant → FeedbackRecord

structure Run where
  exitCode : Nat
  output : String := ""
  /-- What is written to standard error. -/
  complaint : String := ""
  note : Option Note := none

def versionText : String := "mathmentor 0.1.0\n"

def usage : String := "Usage: mathmentor [OPTIONS] <PROBLEM>...\n"

/-- Rows of a name and a description. The descriptions begin in one column, two places behind the
longest name. -/
def table (rows : List (String × String)) : String :=
  let width := rows.foldl (fun width row => max width row.1.length) 0
  String.join <| rows.map fun (name, description) =>
    "  " ++ name ++ String.ofList (List.replicate (width - name.length) ' ') ++ "  " ++ description ++ "\n"

/-- What the program is for, how it is called, and what its arguments mean. -/
def helpText : String :=
  let purpose := "Interprets informally phrased math problems and produces verified, " ++
    "explained symbolic solutions\n"
  let words := [("<PROBLEM>...", "The problem text; several words are joined with spaces")]
  let options := [
    ("    --json", "Print the full report as JSON"),
    ("    --variable <VARIABLE>", "Unknown to solve for and differentiate by"),
    ("    --feedback <FEEDBACK>", "Record feedback on the solution (correct or incorrect)"),
    ("    --comment <COMMENT>", "Comment stored with the feedback"),
    ("    --feedback-log <FEEDBACK_LOG>", "Feedback log location"),
    ("-v, --verbose...", "Increase logging verbosity (-v debug, -vv trace)"),
    ("-h, --help", "Print help"),
    ("-V, --version", "Print version")]
  purpose ++ "\n" ++ usage ++ "\nArguments:\n" ++ table words ++ "\nOptions:\n" ++ table options

def printed (json : Bool) (report : Report) : String :=
  if json then report.toJson.indented ++ "\n" else String.join (report.lines.map (· ++ "\n"))

def note? (options : Options) (path : String) (report : Report) : Option Note :=
  options.feedback.map fun feedback =>
    { path
      record := fun time =>
        .ofRemark
          { time, question := report.problem.text, outcome := report.outcome, feedback,
            comment := options.comment } }

def run (environment : String → Option String) (arguments : List String) : Run :=
  match Options.ofArguments arguments with
  | .error .help => { exitCode := 0, output := helpText }
  | .error .version => { exitCode := 0, output := versionText }
  | .error (.usage error) => { exitCode := 2, complaint := "error: " ++ error.message ++ "\n\n" ++ usage }
  | .ok options =>
    let settings := options.settings (Settings.ofLookup environment)
    match Report.ofText Verify.consistency settings (String.intercalate " " options.words) with
    | .error failure => { exitCode := 1, complaint := "error: " ++ failure.message ++ "\n" }
    | .ok report =>
      { exitCode := 0
        output := printed options.json report
        note := note? options settings.feedbackPath report }

example : (Options.ofArguments ["a", "--json", "-vv", "--", "--b"]).toOption =
    some { words := ["a", "--b"], json := true, verbosity := 2 } := by decide +kernel
example : (Options.ofArguments ["a", "--comment=-", "--feedback", "correct"]).toOption =
    some { words := ["a"], comment := some "-", feedback := some .correct } := by decide +kernel
example : (Options.ofArguments ["a", "--comment", "b"]).toOption = none := by decide +kernel

end Tutor.CommandLine
