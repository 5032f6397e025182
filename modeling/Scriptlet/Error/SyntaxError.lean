import Scriptlet.Error.Cause
import Scriptlet.Text.Excerpt

/-!
# Syntax errors

What a caller gets when a text is refused: class, message, place, an excerpt of the text, and the
start of the statement around it. `Failure.report` is the only maker of these values for a text;
a lexical error quotes the line from its place on, every other error what surrounds it.
-/

namespace Scriptlet

/-- Why and where a text is refused, in words. -/
structure SyntaxError where
  kind : ErrorKind
  message : String
  offset : Nat
  excerpt : String
  statement : Option Nat
deriving DecidableEq, Repr

/-- The excerpt that an error of a class shows. -/
def ErrorKind.excerpt (kind : ErrorKind) (text : List Char) (offset : Nat) : String :=
  match kind with
  | .lexical => Text.lineExcerpt text offset
  | _ => Text.surroundingExcerpt text offset

/-- A failure in words, with an excerpt of the text that it was found in. -/
def Failure.report (failure : Failure) (text : List Char) : SyntaxError where
  kind := failure.cause.kind
  message := failure.cause.message
  offset := failure.offset
  excerpt := failure.cause.kind.excerpt text failure.offset
  statement := failure.statement

/-- A syntax error on one line. -/
def SyntaxError.line (error : SyntaxError) : String :=
  error.kind.label ++ " at offset " ++ toString error.offset ++ ": " ++ error.message ++
    " (near `" ++ error.excerpt ++ "`)"

end Scriptlet
