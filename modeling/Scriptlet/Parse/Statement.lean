import Scriptlet.Parse.Level
import Scriptlet.Token.Spelling

/-!
# Statements

A statement is a declaration or an expression, and its first word decides which. Redundant
semicolons may follow it. Words that start a statement which the language does not have are
refused, and a declaration binds no reserved word.
-/

namespace Scriptlet.Level

open Scriptlet.Parser Spelling

/-- A name that a declaration binds: a word that is not reserved. -/
def declaredName (expectation : Expectation) : Parser Name := do
  let token ← next
  if token.kind = .word then
    if isReserved token.text then
      fail (.reservedName token.text) token.span.offset
    else
      return ⟨token.text, token.span⟩
  else
    unexpected expectation token

/-- What follows the name of a declared variable, up to its semicolon. -/
def initializer? (below : Level) (modifier : Modifier) : Parser (Option Slot) := do
  let token ← next
  if token.kind = .assign then
    let value ← below.slot .plain
    let _ ← expect .semicolon .initializerEnd
    return some value
  else if modifier = .asConst then
    unexpected .constInitializer token
  else if token.kind = .semicolon then
    return none
  else
    unexpected .initializerOrEnd token

/-- A declaration of a variable, whose first token is the word for `modifier`. -/
def variableDeclaration (below : Level) (keyword : Token) (modifier : Modifier) :
    Parser Statement := do
  take keyword
  let name ← declaredName .variableName
  let value ← below.initializer? modifier
  note (.variableDeclared modifier name.text value.isSome)
  return .variableDeclaration modifier name value (← spanFrom keyword.span.offset)

/-- A declaration of a function, whose first token is the word for it. Its parameters are plain
names. -/
def functionDeclaration (below : Level) (keyword : Token) : Parser Statement := do
  take keyword
  let name ← declaredName .functionName
  let _ ← expect .openRound .parametersOpen
  let parameters ← separated (declaredName .parameterName) .parameterSeparator
  let (body, _) ← below.block
  note (.functionDeclared name.text parameters.length body.length)
  return .functionDeclaration name parameters body (← spanFrom keyword.span.offset)

/-- An expression that stands as a statement. -/
def expressionStatement (below : Level) : Parser Statement := do
  let slot ← below.slot .plain
  let _ ← expect .semicolon .expressionEnd
  return .expression slot

/-- A statement up to its own last token. Its first word decides what it is. -/
def statementBody (below : Level) : Parser Statement := do
  let token ← peek
  if token.kind = .word then
    match Modifier.ofWord? token.text with
    | some modifier => below.variableDeclaration token modifier
    | none =>
      if token.text = functionWord then
        below.functionDeclaration token
      else if unsupportedWords.contains token.text then
        fail (.unsupportedStatement token.text) token.span.offset
      else
        below.expressionStatement
  else
    below.expressionStatement

/-- A statement that `body` reads, and the redundant semicolons behind it. These no longer belong
to the statement. -/
def terminated (body : Parser Statement) : Parser Statement := do
  let start ← offset
  let statement ← inStatement start (construct .statement body)
  let _ ← many (next? .semicolon)
  return statement

end Scriptlet.Level
