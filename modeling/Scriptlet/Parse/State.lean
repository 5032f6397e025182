import Scriptlet.Cursor

/-!
# The state of a parse

A parser reads tokens from a cursor and fails with a `Failure`. Only the operations of this module
touch the state; the grammar is written with them. A parse that fails keeps the state it failed
in, so the journal tells what was read up to the failure.

`within` counts a level of nesting while a parser runs, `construct` notes where a statement or an
expression starts and that it is complete, and `inStatement` marks the failures of a statement with
its start.
-/

namespace Scriptlet

/-- What can be open while a parse goes on. -/
inductive Construct where
  | statement | expression
deriving DecidableEq, Repr

/-- What a parse notes down as it goes. -/
inductive Event where
  /-- A construct starts at an offset. -/
  | opened (construct : Construct) (offset : Nat)
  /-- The construct that started last is complete. -/
  | closed
  /-- A token was taken. -/
  | token (token : Token)
  /-- A declaration of a variable is complete. -/
  | variableDeclared (modifier : Modifier) (name : String) (initialized : Bool)
  /-- A declaration of a function is complete. -/
  | functionDeclared (name : String) (parameters statements : Nat)
deriving DecidableEq, Repr

/-- Where a parse is. Between two operations the cursor stands at a token or at the end. -/
structure ParseState where
  cursor : Cursor
  /-- Where the last token taken stops. -/
  lastStop : Nat
  /-- The number of levels of nesting that are open: one for each statement and expression. -/
  depth : Nat
  /-- What happened, the latest first. -/
  journal : List Event
deriving Repr

/-- What is open after the events of a journal, the innermost first: what started and is not
complete. The latest event comes first. -/
def Event.openConstructs : List Event → List (Construct × Nat)
  | [] => []
  | .opened construct offset :: earlier => (construct, offset) :: openConstructs earlier
  | .closed :: earlier => (openConstructs earlier).tail
  | _ :: earlier => openConstructs earlier

/-- The state that a parse of a text starts in. -/
def ParseState.start (text : List Char) : ParseState :=
  ⟨Cursor.start text, 0, 0, []⟩

/-- A parser of an `α`: it takes tokens and gives an `α`, or fails. -/
abbrev Parser (α : Type) : Type :=
  EStateM Failure ParseState α

namespace Parser

variable {α : Type}

/-- Fails for a cause, at an offset. -/
def fail (cause : Cause) (offset : Nat) : Parser α :=
  throw ⟨cause, offset, none⟩

/-- The offset of the cursor. -/
def offset : Parser Nat :=
  return (← get).cursor.offset

/-- Whether the whole text has been read. -/
def atEnd : Parser Bool :=
  return (← get).cursor.rest.isEmpty

/-- The next token, which is not taken; none at the end of the text. -/
def peek? : Parser (Option Token) := do
  match (← get).cursor.peek with
  | .ok token => return token
  | .error failure => throw failure

/-- Takes the next token, which is `token`. -/
def take (token : Token) : Parser Unit :=
  modify fun state =>
    { state with
      cursor := state.cursor.past token
      lastStop := token.span.stop
      journal := .token token :: state.journal }

/-- Notes an event down. -/
def note (event : Event) : Parser Unit :=
  modify fun state => { state with journal := event :: state.journal }

/-- Fails because the text ends. -/
def failAtEnd : Parser α := do
  fail .endOfInput (← offset)

/-- Fails at a token that is not what was expected. -/
def unexpected (expectation : Expectation) (found : Token) : Parser α :=
  fail (.unexpected expectation found) found.span.offset

/-- The next token, which is not taken and has to be there. -/
def peek : Parser Token := do
  match ← peek? with
  | some token => return token
  | none => failAtEnd

/-- Takes the next token. -/
def next : Parser Token := do
  let token ← peek
  take token
  return token

/-- Takes the next token, which has to be of a kind. -/
def expect (kind : Kind) (expectation : Expectation) : Parser Token := do
  let token ← peek
  if token.kind = kind then
    take token
    return token
  else
    unexpected expectation token

/-- Takes the next token if it is of a kind. -/
def next? (kind : Kind) : Parser (Option Token) := do
  match ← peek? with
  | some token =>
    if token.kind = kind then
      take token
      return some token
    else
      return none
  | none => return none

/-- The span from `start` to where the last token taken stops. -/
def spanFrom (start : Nat) : Parser Span :=
  return .between start (← get).lastStop

/-- Runs the parser of a construct that starts at the cursor. A construct that fails is never
complete, so the journal of a failure tells what was open. -/
def construct (construct : Construct) (parser : Parser α) : Parser α := do
  note (.opened construct (← offset))
  let value ← parser
  note .closed
  return value

/-- Fails at the cursor because as many levels are open as may be. -/
def tooDeep : Parser α := do
  let state ← get
  fail (.tooDeep state.depth) state.cursor.offset

/-- Runs a parser one level deeper. The level is left again in either case. -/
def within (parser : Parser α) : Parser α := fun state =>
  match parser { state with depth := state.depth + 1 } with
  | .ok value state => .ok value { state with depth := state.depth - 1 }
  | .error failure state => .error failure { state with depth := state.depth - 1 }

/-- Runs a parser as part of the statement that starts at `start`. -/
def inStatement (start : Nat) (parser : Parser α) : Parser α := fun state =>
  match parser state with
  | .ok value state => .ok value state
  | .error failure state => .error (failure.inStatement start) state

end Parser

end Scriptlet
