import Scriptlet.Error.SyntaxError
import Scriptlet.Parse.Nesting

/-!
# Programs

The parser of a whole text, and the two functions that read a text from outside: `parse` gives the
tree of a program and `tokens` its tokens, and each gives the one syntax error of a text that it
refuses.
-/

namespace Scriptlet

/-- How many statements and expressions may be open at once. -/
def nestingLimit : Nat := 256

/-- The statements of a text, up to its end. -/
def Level.statements (level : Level) : Parser (List Statement) :=
  .many do if ← Parser.atEnd then return none else return some (← level.statement)

/-- A run of the parser over a text, with so many levels of nesting. -/
def parseWithin (limit : Nat) (text : List Char) :
    EStateM.Result Failure ParseState (List Statement) :=
  (Level.ofHeight limit).statements (.start text)

namespace Program

/-- The tree of a text, and what happened on the way to it or to the failure, the latest first. -/
def parseText (text : List Char) : Except Failure Program × List Event :=
  match parseWithin nestingLimit text with
  | .ok statements state => (.ok ⟨statements, ⟨0, text.length⟩⟩, state.journal)
  | .error failure state => (.error failure, state.journal)

/-- The tree of a program, or why the text is refused. -/
def parse (source : String) : Except SyntaxError Program :=
  let text := source.toList
  (parseText text).1.mapError (·.report text)

end Program

/-- The tokens of a text, or why it cannot be read to its end. -/
def tokens (source : String) : Except SyntaxError (List Token) :=
  let text := source.toList
  (Cursor.start text).tokens.mapError (·.report text)

end Scriptlet
