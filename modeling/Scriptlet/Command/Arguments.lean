/-!
# The command line

What the arguments of the program ask for. They are read from the left as a whole before anything
else happens, so a misuse is found before any file is touched.
-/

namespace Scriptlet

/-- What a command line asks for. -/
inductive Command where
  | help
  /-- Prints the tree of a file, or puts it into the file `out?`. -/
  | parse (path : String) (out? : Option String)
  /-- Prints the tokens of a file. -/
  | lex (path : String)
  /-- Parses files and says of each whether it is a program. -/
  | check (paths : List String)
deriving DecidableEq, Repr

/-- Why a command line asks for nothing. -/
inductive Misuse where
  | unknownCommand (name : String)
  | missingOutPath
  | unexpectedArgument (argument : String)
  | parseWithoutFile | lexWithoutOneFile | checkWithoutFile
deriving DecidableEq, Repr

/-- A misuse on one line. -/
def Misuse.line : Misuse → String
  | unknownCommand name => "unknown command `" ++ name ++ "` (see `minijs --help`)"
  | missingOutPath => "--out requires a path"
  | unexpectedArgument argument => "unexpected argument `" ++ argument ++ "`"
  | parseWithoutFile => "usage: minijs parse <file> [--out <path>]"
  | lexWithoutOneFile => "usage: minijs lex <file>"
  | checkWithoutFile => "usage: minijs check <file>..."

namespace Command

/-- The lines of the help text. -/
def helpLines : List String :=
  ["minijs",
   "",
   "USAGE:",
   "  minijs <COMMAND>",
   "",
   "COMMANDS:",
   "  parse <file> [--out <path>]  Print the syntax tree as JSON",
   "  lex <file>                   Print the token list as JSON",
   "  check <file>...              Parse files and report the first error in each",
   "  -h, --help                   Show this help",
   "",
   "ENVIRONMENT:",
   "  MINIJS_TRACE_LEX=1           Trace consumed tokens to stderr",
   "  MINIJS_TRACE_PARSE=1         Trace completed declarations to stderr"]

/-- The help text. -/
def helpText : String :=
  String.join (helpLines.map (· ++ "\n"))

/-- Whether an argument takes the next one as the path to write to. -/
def isOutOption (argument : String) : Bool :=
  argument == "--out" || argument == "-o"

/-- Reads the arguments of `parse`, after a file and a path to write to that were read already.
The last path to write to counts. -/
def ofParseArguments (file? out? : Option String) : List String → Except Misuse Command
  | [] =>
    match file? with
    | some file => .ok (.parse file out?)
    | none => .error .parseWithoutFile
  | [argument] =>
    if isOutOption argument then .error .missingOutPath
    else
      match file? with
      | none => .ok (.parse argument out?)
      | some _ => .error (.unexpectedArgument argument)
  | argument :: path :: rest =>
    if isOutOption argument then ofParseArguments file? (some path) rest
    else
      match file? with
      | none => ofParseArguments (some argument) out? (path :: rest)
      | some _ => .error (.unexpectedArgument argument)

/-- Reads a command line. -/
def ofArguments : List String → Except Misuse Command
  | [] => .ok .help
  | "-h" :: _ => .ok .help
  | "--help" :: _ => .ok .help
  | "parse" :: arguments => ofParseArguments none none arguments
  | ["lex", path] => .ok (.lex path)
  | "lex" :: _ => .error .lexWithoutOneFile
  | ["check"] => .error .checkWithoutFile
  | "check" :: paths => .ok (.check paths)
  | name :: _ => .error (.unknownCommand name)

end Command

end Scriptlet
