import Scriptlet.Parse.State

/-!
# Traces

A trace is the part of a parse's journal that was asked for, a line an event, in the order in which
things happened. The journal does not know what is asked for, so tracing cannot change a parse.
-/

namespace Scriptlet

/-- Which events a trace shows. -/
structure TraceSettings where
  tokens : Bool
  declarations : Bool
deriving DecidableEq, Repr, Inhabited

namespace TraceSettings

/-- Whether the value of an environment variable turns something on. -/
def isOn (value : Option String) : Bool :=
  match value with
  | some text => text == "1" || text.toLower == "true"
  | none => false

/-- The environment variable that turns on the lines for tokens. -/
def tokensVariable : String := "MINIJS_TRACE_LEX"

/-- The environment variable that turns on the lines for declarations. -/
def declarationsVariable : String := "MINIJS_TRACE_PARSE"

/-- The settings that an environment asks for, given how to look a variable up. -/
def ofEnvironment {m : Type → Type} [Monad m] (lookup : String → m (Option String)) :
    m TraceSettings := do
  let tokens ← lookup tokensVariable
  let declarations ← lookup declarationsVariable
  return ⟨isOn tokens, isOn declarations⟩

end TraceSettings

/-- The line of an event, if the settings ask for it. -/
def Event.line? (settings : TraceSettings) : Event → Option String
  | opened _ _ => none
  | closed => none
  | token t =>
    if settings.tokens then
      some ("[MINIJS_TRACE_LEX] " ++ t.kind.traceName ++ " `" ++ t.text ++ "` at " ++
        toString t.span.offset)
    else none
  | variableDeclared modifier name initialized =>
    if settings.declarations then
      some ("[MINIJS_TRACE_PARSE] " ++ modifier.word ++ " " ++ name ++ " (initialized: " ++
        toString initialized ++ ")")
    else none
  | functionDeclared name parameters statements =>
    if settings.declarations then
      some ("[MINIJS_TRACE_PARSE] function " ++ name ++ " (" ++ toString parameters ++
        " parameters, " ++ toString statements ++ " statements)")
    else none

/-- The lines of a trace, from a journal with the latest event first. -/
def TraceSettings.lines (settings : TraceSettings) (journal : List Event) : List String :=
  journal.reverse.filterMap (Event.line? settings)

end Scriptlet
