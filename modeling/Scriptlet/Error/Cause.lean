import Scriptlet.Token.Scan
import Scriptlet.Tree.Rebind

/-!
# Causes of refusal

Why a text is refused, as data: each way the scanner or the parser can stop is a `Cause`. The
class of an error, its code and its wording are functions of the cause, so no decision of the
parser hangs on a text.
-/

namespace Scriptlet

/-- The classes of errors. -/
inductive ErrorKind where
  | lexical | endOfInput | unexpectedToken | unsupported | notRebindable | reservedName
deriving DecidableEq, Repr, Inhabited

namespace ErrorKind

/-- The code of a class in reports. -/
def code : ErrorKind → String
  | lexical => "E1000"
  | endOfInput => "E1001"
  | unexpectedToken => "E1500"
  | unsupported => "E1501"
  | notRebindable => "E1502"
  | reservedName => "E1503"

/-- The name of a class in reports. -/
def label : ErrorKind → String
  | lexical => "lexical error"
  | endOfInput => "unexpected end of input"
  | unexpectedToken => "unexpected token"
  | unsupported => "unsupported construct"
  | notRebindable => "invalid lowering target"
  | reservedName => "reserved identifier"

end ErrorKind

/-- What the parser can look for in vain. -/
inductive Expectation where
  | expression | chainEnd | plainNameBeforeDefault
  | indexClose | argumentSeparator
  | fieldSeparator | key | keyClose | keyColon
  | arrow | groupClose
  | expressionEnd | initializerEnd | constInitializer | initializerOrEnd
  | variableName | functionName | parameterName | parametersOpen | parameterSeparator | blockOpen
deriving DecidableEq, Repr

/-- The wording of an expectation. -/
def Expectation.message : Expectation → String
  | expression => "expected an expression"
  | chainEnd => "expected `;`, `,` or a closing bracket"
  | plainNameBeforeDefault => "only a plain name can take a default value"
  | indexClose => "expected `]` after index"
  | argumentSeparator => "expected `,` or `)` in call arguments"
  | fieldSeparator => "expected `,` or `\x7d` in object literal"
  | key => "expected a property key"
  | keyClose => "expected `]` after computed key"
  | keyColon => "expected `:` after property key"
  | arrow => "expected `=>` after empty parameter list"
  | groupClose => "expected `)`"
  | expressionEnd => "expected `;` after expression"
  | initializerEnd => "expected `;` after variable initializer"
  | constInitializer => "`const` declarations require `=`"
  | initializerOrEnd => "expected `=` or `;`"
  | variableName => "expected a variable name"
  | functionName => "expected a function name"
  | parameterName => "expected a parameter name"
  | parametersOpen => "expected `(` after function name"
  | parameterSeparator => "expected `,` or `)`"
  | blockOpen => "expected `\x7b`"

/-- A token as it is quoted in a report: a string between quotes, a field access after its point. -/
def Token.quoted (token : Token) : String :=
  match token.kind with
  | .string => "'" ++ token.text ++ "'"
  | .field => "." ++ token.text
  | _ => token.text

/-- The wording of a lexical fault. -/
def Fault.message : Fault → String
  | unknownOperator run => "unknown operator `" ++ run ++ "`"
  | unterminatedString => "unterminated string literal"
  | missingFieldName => "expected a field name after '.'"
  | unexpectedCharacter c => "unexpected character '" ++ String.singleton c ++ "'"

/-- Why a text is refused. -/
inductive Cause where
  /-- No token can be read. -/
  | fault (fault : Fault)
  /-- The text ends inside a construct. -/
  | endOfInput
  /-- A token stands where another was expected. -/
  | unexpected (expectation : Expectation) (found : Token)
  /-- A statement starts with a word of a statement that the language leaves out. -/
  | unsupportedStatement (word : String)
  /-- As many levels of nesting are open as may be, and a construct starts. -/
  | tooDeep (levels : Nat)
  /-- What turned out to be a pattern or a list of parameters holds a part that binds nothing. -/
  | notRebindable (cause : RebindCause)
  /-- A declaration uses a reserved word as a name. -/
  | reservedName (word : String)
deriving DecidableEq, Repr

namespace Cause

/-- The class of a cause. -/
def kind : Cause → ErrorKind
  | fault _ => .lexical
  | endOfInput => .endOfInput
  | unexpected _ _ => .unexpectedToken
  | unsupportedStatement _ => .unsupported
  | tooDeep _ => .unsupported
  | notRebindable _ => .notRebindable
  | reservedName _ => .reservedName

/-- The wording of a cause. -/
def message : Cause → String
  | fault found => found.message
  | endOfInput => "unexpected end of code"
  | unexpected expectation found =>
    expectation.message ++ ", found `" ++ found.quoted ++ "`"
  | unsupportedStatement word => "`" ++ word ++ "` statements are not supported"
  | tooDeep levels => "nesting deeper than " ++ toString levels ++ " levels is not supported"
  | notRebindable cause => cause.message
  | reservedName word => "`" ++ word ++ "` is a reserved word"

end Cause

/-- The one failure that ends a parse: the cause, the offset it is reported at, and the start of
the innermost statement that was open, if one was. -/
structure Failure where
  cause : Cause
  offset : Nat
  statement : Option Nat := none
deriving DecidableEq, Repr

/-- A failure inside a statement that starts at `start`. A statement further in comes first. -/
def Failure.inStatement (failure : Failure) (start : Nat) : Failure :=
  match failure.statement with
  | some _ => failure
  | none => ⟨failure.cause, failure.offset, some start⟩

end Scriptlet
