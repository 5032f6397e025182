import Scriptlet.Parse.State

/-!
# Repetition

Every loop of the grammar is a `repeated` step: the step goes on with a new value or ends with a
result. A step that goes on takes a token, so there are no more rounds than characters left, and
one more; `rounds` counts them down on the text that is left when the loop starts, and needs no
other bound.

`many` and `separated` are the two lists of the grammar: items until there is none, and items
between commas up to a closing bracket.
-/

namespace Scriptlet

/-- How a round of a loop ends: with the value for the next round, or with the result. -/
inductive Round (α β : Type) where
  | again (value : α)
  | done (result : β)

namespace Parser

variable {α β : Type}

/-- Runs a step until it is done, for at most one round per character of `text` and one more. -/
def rounds (step : α → Parser (Round α β)) : List Char → α → Parser β
  | [], value => do
    match ← step value with
    | .done result => return result
    | .again _ => failAtEnd
  | _ :: text, value => do
    match ← step value with
    | .done result => return result
    | .again value => rounds step text value

/-- Runs a step until it is done. A step that goes on has to take a token. -/
def repeated (step : α → Parser (Round α β)) (value : α) : Parser β := do
  rounds step (← get).cursor.rest value

/-- The items up to where there is none. -/
def many (item? : Parser (Option α)) : Parser (List α) :=
  repeated (fun items => do
    match ← item? with
    | some item => return .again (item :: items)
    | none => return .done items.reverse) []

/-- The items between commas, up to a closing round bracket, which is taken. -/
def separated (item : Parser α) (separator : Expectation) : Parser (List α) := do
  if (← next? .closeRound).isSome then
    return []
  else
    repeated (fun items => do
      let items := (← item) :: items
      let token ← next
      match token.kind with
      | .comma => return .again items
      | .closeRound => return .done items.reverse
      | _ => unexpected separator token) []

end Parser

end Scriptlet
