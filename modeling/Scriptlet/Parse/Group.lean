import Scriptlet.Parse.Chain
import Scriptlet.Tree.Rebind
import Scriptlet.Parse.Object

/-!
# Groups and arrow functions

Round brackets hold an expression until an arrow follows them: then they held the parameters of an
arrow function, and their content is read again as such. An empty group is always a list of
parameters. The body of an arrow function is an expression, which ends the expression around it,
or a block, after which a chain may go on.
-/

namespace Scriptlet.Level

open Scriptlet.Parser

/-- The rest of an arrow function, whose arrow is the next token. -/
def arrowFunction (below : Level) (parameters : Parameters) (arrow : Token) (mode : Mode) :
    Parser Expr := do
  let start := parameters.span.offset
  take arrow
  match ← peek? with
  | some ⟨.openCurly, _, _⟩ =>
    let (statements, span) ← below.block
    let node := Expr.arrow parameters (.block statements span) (← spanFrom start)
    below.chain start mode.value node
  | _ =>
    let body ← below.slot mode.value
    return .arrow parameters (.expression body) (← spanFrom start)

/-- The arrow function that an empty group starts; the group is taken already. -/
def emptyGroup (below : Level) (group : Span) (mode : Mode) : Parser Expr := do
  let arrow ← peek
  if arrow.kind = .arrow then
    below.arrowFunction ⟨[], group⟩ arrow mode
  else
    unexpected .arrow arrow

/-- What follows a group with content: an arrow makes it a list of parameters, and otherwise a
chain goes on from its content. -/
def filledGroup (below : Level) (content : Expr) (group : Span) (mode : Mode) : Parser Expr := do
  match ← peek? with
  | some ⟨.arrow, text, span⟩ =>
    let parameters ← rebound (content.toParameters group)
    below.arrowFunction parameters ⟨.arrow, text, span⟩ mode
  | _ => below.chain group.offset mode content

/-- A group, whose opening bracket is the next token, and what belongs to it. -/
def group (below : Level) (bracket : Token) (mode : Mode) : Parser Expr := do
  let start := bracket.span.offset
  take bracket
  match ← next? .closeRound with
  | some close => below.emptyGroup (.between start close.span.stop) mode
  | none =>
    let content ← below.expr .group
    let close ← expect .closeRound .groupClose
    below.filledGroup content (.between start close.span.stop) mode

end Scriptlet.Level
