import Scriptlet.Parse.Group
import Scriptlet.Parse.Statement

/-!
# The levels of the grammar

Expressions and statements with the level below given: `Level.above` ties the parts of the grammar
together. At the lowest level nothing may open any more, because there as many levels are open as
may be. `Level.ofHeight` builds the level that programs are parsed at.
-/

namespace Scriptlet.Level

open Scriptlet.Parser

/-- An expression: its first part and the chain behind it. -/
def expression (below : Level) (mode : Mode) : Parser Expr := do
  let token ← peek
  let start := token.span.offset
  match token.kind with
  | .string =>
    take token
    below.chain start mode (.string token.text token.span)
  | .number =>
    take token
    below.chain start mode (.number token.text token.span)
  | .word =>
    take token
    below.chain start mode (.name ⟨token.text, token.span⟩)
  | .openCurly => below.chain start mode (← below.object token)
  | .openRound => below.group token mode
  | _ => unexpected .expression token

/-- The level where nothing may open any more. -/
def lowest : Level where
  expr _ := construct .expression tooDeep
  statement := terminated tooDeep

/-- The level above another one. -/
def above (below : Level) : Level where
  expr mode := construct .expression (within (below.expression mode))
  statement := terminated (within below.statementBody)

/-- The level with so many levels below it. -/
def ofHeight : Nat → Level
  | 0 => lowest
  | height + 1 => above (ofHeight height)

end Scriptlet.Level
