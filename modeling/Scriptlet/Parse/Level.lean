import Scriptlet.Parse.Repeat
import Scriptlet.Tree.Basic

/-!
# Levels of nesting

The parts of the grammar that contain one another are parsed level by level: a `Level` is a parser
of expressions and a parser of statements, and a construct asks the level below for what stands
inside it. So nothing here is recursive but the number of levels, which bounds how deep a program
may nest.
-/

namespace Scriptlet

/-- How an expression relates to the list that it stands in. -/
structure Mode where
  /-- A comma ends the expression and does not make it a sequence. -/
  stopAtComma : Bool
  /-- A name may be followed by `=` and a default value. -/
  allowDefault : Bool
deriving DecidableEq, Repr

namespace Mode

/-- An expression that stands by itself. -/
def plain : Mode := ⟨false, false⟩

/-- An item of a list: an argument, the value of a field, a default value. -/
def item : Mode := ⟨true, false⟩

/-- The content of a group, which an arrow can make a list of parameters. -/
def group : Mode := ⟨false, true⟩

/-- The mode of what an arrow yields: where a group could take defaults, its parts cannot. -/
def value (mode : Mode) : Mode :=
  { mode with allowDefault := false }

end Mode

/-- Parsers of what nests: expressions, by mode, and statements. -/
structure Level where
  expr : Mode → Parser Expr
  statement : Parser Statement

namespace Level

open Scriptlet.Parser

/-- An expression together with the span of all that is read for it. -/
def slot (level : Level) (mode : Mode) : Parser Slot := do
  let start ← offset
  let body ← level.expr mode
  return ⟨body, ← spanFrom start⟩

/-- The statements of a block and the span of the block. -/
def block (level : Level) : Parser (List Statement × Span) := do
  let brace ← expect .openCurly .blockOpen
  let statements ← many do
    if (← next? .closeCurly).isSome then return none else return some (← level.statement)
  return (statements, ← spanFrom brace.span.offset)

end Level

end Scriptlet
