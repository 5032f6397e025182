import Scriptlet.Command.Arguments
import Scriptlet.Error.Diagnostic
import Scriptlet.Files.Access
import Scriptlet.Parse.Program
import Scriptlet.Trace
import Scriptlet.Tree.Json

/-!
# Running commands

What a command does and says. A run gives a `Report`: whether all went well, and the texts for the
two output streams. It touches files only through `FileAccess`, so it is a function of the file
system, the arguments and the trace settings.

`parseFile` reads a file and parses it, as a program that uses this library does.
-/

namespace Scriptlet

/-- What a run of the program leaves: its success and its two streams of output. -/
structure Report where
  success : Bool
  out : String
  err : String
deriving DecidableEq, Repr

namespace Report

/-- Success that prints a text. -/
def printed (text : String) : Report :=
  ⟨true, text, ""⟩

/-- Failure for the reason on a line. -/
def failed (line : String) : Report :=
  ⟨false, "", line ++ "\n"⟩

/-- A report with a text in front of what it reports. -/
def after (text : String) (report : Report) : Report :=
  { report with err := text ++ report.err }

/-- One report after another: the run succeeds if both parts of it do. -/
def andThen (first second : Report) : Report :=
  ⟨first.success && second.success, first.out ++ second.out, first.err ++ second.err⟩

end Report

/-- Why a file gives no program. -/
inductive LoadError where
  | unreadable (error : FileError)
  | refused (error : SyntaxError)

/-- A load error on one line. -/
def LoadError.line : LoadError → String
  | unreadable error => error.line
  | refused error => error.line

variable {m : Type → Type} [Monad m] [FileAccess m]

/-- Reads a file and parses it. -/
def parseFile (path : String) : m (Except LoadError Program) := do
  match ← FileAccess.read path with
  | .ok source => return (Program.parse source).mapError .refused
  | .error error => return .error (.unreadable error)

/-- The lines of a trace as text. -/
def traceText (settings : TraceSettings) (journal : List Event) : String :=
  String.join ((settings.lines journal).map (· ++ "\n"))

/-- Parses the text of a file. A refusal is rendered; a program goes on to `use`. The trace comes
first in either case. -/
def parseThen (settings : TraceSettings) (path source : String) (use : Program → m Report) :
    m Report := do
  let text := source.toList
  let (result, journal) := Program.parseText text
  let report ←
    match result with
    | .ok program => use program
    | .error failure => pure (.failed ((failure.report text).render path text))
  return .after (traceText settings journal) report

namespace Command

/-- Parses a file and prints its tree, or writes it to a file. -/
def runParse (settings : TraceSettings) (path : String) (out? : Option String) : m Report := do
  match ← FileAccess.read path with
  | .error error => return .failed error.line
  | .ok source =>
    parseThen settings path source fun program => do
      let text := program.toJson.indented ++ "\n"
      match out? with
      | none => return .printed text
      | some out =>
        match ← FileAccess.write out text with
        | .ok () => return .printed ""
        | .error error => return .failed error.line

/-- Reads the tokens of a file and prints them. -/
def runLex (path : String) : m Report := do
  match ← FileAccess.read path with
  | .error error => return .failed error.line
  | .ok source =>
    match tokens source with
    | .ok tokens => return .printed ((Json.array (tokens.map Token.toJson)).indented ++ "\n")
    | .error error => return .failed (error.render path source.toList)

/-- Parses files one after another, up to the first that cannot be read. -/
def runCheck (settings : TraceSettings) : List String → m Report
  | [] => return .printed ""
  | path :: rest => do
    match ← FileAccess.read path with
    | .error error => return .failed error.line
    | .ok source =>
      let report ← parseThen settings path source fun _ => return .printed ("ok " ++ path ++ "\n")
      return report.andThen (← runCheck settings rest)

/-- Runs a command. -/
def run (settings : TraceSettings) : Command → m Report
  | help => return .printed helpText
  | parse path out? => runParse settings path out?
  | lex path => runLex path
  | check paths => runCheck settings paths

/-- Runs what a command line asks for, or tells why it asks for nothing. -/
def runArguments (settings : TraceSettings) (arguments : List String) : m Report :=
  match ofArguments arguments with
  | .ok command => command.run settings
  | .error misuse => return .failed misuse.line

end Command

end Scriptlet
