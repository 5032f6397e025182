import Scriptlet.Parse.Level
import Scriptlet.Tree.Rebind

/-!
# Object literals

An object literal lists its fields between curly brackets, and a comma may follow the last one. A
literal before `=` was a pattern: it is read again as one, and what follows is the object that the
pattern takes apart.
-/

namespace Scriptlet.Level

open Scriptlet.Parser

/-- Fails where an expression that has to bind something does not. -/
def rebound {α : Type} (result : Except Violation α) : Parser α :=
  match result with
  | .ok value => return value
  | .error violation => fail (.notRebindable violation.cause) violation.span.offset

/-- The key of a field, whose first token is taken already. -/
def objectKey (below : Level) (first : Token) : Parser ObjectKey := do
  match first.kind with
  | .openSquare =>
    let slot ← below.slot .plain
    let _ ← expect .closeSquare .keyClose
    return .computed slot
  | .word => return .name ⟨first.text, first.span⟩
  | .string => return .string first.text first.span
  | .number => return .number first.text first.span
  | _ => unexpected .key first

/-- The value that a field has without a colon: its name, if its key is one and the field ends. -/
def shorthand? : ObjectKey → Parser (Option Slot)
  | .name name => do
    let token ← peek
    match token.kind with
    | .comma | .closeCurly => return some (.bare (.name name))
    | _ => return none
  | _ => return none

/-- A field of an object literal. -/
def objectField (below : Level) : Parser ObjectField := do
  let first ← next
  let key ← below.objectKey first
  match ← shorthand? key with
  | some value => return ⟨key, value, ← spanFrom first.span.offset⟩
  | none =>
    let _ ← expect .colon .keyColon
    let value ← below.slot .item
    return ⟨key, value, ← spanFrom first.span.offset⟩

/-- The next field of an object literal and the comma behind it; none at the closing bracket,
which is taken. -/
def objectField? (below : Level) : Parser (Option ObjectField) := do
  if (← next? .closeCurly).isSome then
    return none
  else
    let field ← below.objectField
    let token ← peek
    match token.kind with
    | .comma => take token
    | .closeCurly => return some field
    | _ => unexpected .fieldSeparator token
    return some field

/-- An object literal, or a pattern with the object that it takes apart. The opening bracket is
the next token. -/
def object (below : Level) (brace : Token) : Parser Expr := do
  let start := brace.span.offset
  take brace
  let fields ← many below.objectField?
  let literal := Expr.object fields (← spanFrom start)
  if (← next? .assign).isSome then
    let target ← rebound literal.toBinding
    let source ← below.slot .item
    return .assign target source (← spanFrom start)
  else
    return literal

end Scriptlet.Level
