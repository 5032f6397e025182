import Scriptlet.Json
import Scriptlet.Token.Kind
import Scriptlet.Tree.Basic

/-!
# Trees and tokens as JSON

The JSON form of a tree. A value of a type with several forms starts with the member `type`, which
names the form; then come its parts, and last its span as `pos`. A value of a type with a single
form has no `type`, so a name is written with one only where another form could stand.
-/

namespace Scriptlet

/-- A span as JSON. -/
def Span.toJson (span : Span) : Json :=
  .object [("offset", .number span.offset), ("length", .number span.length)]

/-- A token as JSON. -/
def Token.toJson (token : Token) : Json :=
  .object [("kind", .string token.kind.listName), ("text", .string token.text),
    ("pos", token.span.toJson)]

namespace Json

/-- The parts of a value, with its span last. -/
def node (parts : List (String × Json)) (span : Span) : Json :=
  .object (parts ++ [("pos", span.toJson)])

/-- The parts of a value of a type with several forms. -/
def tagged (type : String) (parts : List (String × Json)) (span : Span) : Json :=
  node (("type", .string type) :: parts) span

end Json

open Json (node tagged)

/-- A name as JSON, where nothing else could stand. -/
def Name.toJson (name : Name) : Json :=
  node [("name", .string name.text)] name.span

/-- A name as JSON, where another form could stand. -/
def Name.toTaggedJson (name : Name) : Json :=
  tagged "IDENTIFIER" [("name", .string name.text)] name.span

/-- A string as JSON. -/
def Json.ofStringLiteral (value : String) (span : Span) : Json :=
  tagged "STRING_LITERAL" [("value", .string value)] span

/-- A number as JSON. -/
def Json.ofNumberLiteral (text : String) (span : Span) : Json :=
  tagged "NUMBER_LITERAL" [("value", .string text)] span

mutual
/-- A binding as JSON. -/
def Binding.toJson : Binding → Json
  | .name n => n.toTaggedJson
  | .pattern fields span =>
    tagged "OBJECT_DESTRUCTURING_PATTERN" [("fields", .array (PatternField.listToJson fields))] span

/-- The fields of a pattern as JSON. -/
def PatternField.listToJson : List PatternField → List Json
  | [] => []
  | ⟨source, destination, span⟩ :: rest =>
    node [("source", source.toJson), ("destination", destination.toJson)] span ::
      PatternField.listToJson rest
end

mutual
/-- An expression as JSON. -/
def Expr.toJson : Expr → Json
  | .name n => n.toTaggedJson
  | .string value span => .ofStringLiteral value span
  | .number text span => .ofNumberLiteral text span
  | .field host name span =>
    tagged "FIELD_ACCESS" [("host", host.toJson), ("field", .string name)] span
  | .index host index span =>
    tagged "INDEXED_ACCESS" [("host", host.toJson), ("index", index.toJson)] span
  | .call host arguments span =>
    tagged "CALL" [("host", host.toJson), ("arguments", .array (Slot.listToJson arguments))] span
  | .sequence left right span =>
    tagged "SEQUENTIAL" [("left", left.toJson), ("right", right.toJson)] span
  | .object fields span =>
    tagged "OBJECT_LITERAL" [("fields", .array (ObjectField.listToJson fields))] span
  | .assign target source span =>
    tagged "ASSIGN" [("target", target.toJson), ("source", source.toJson)] span
  | .arrow parameters body span =>
    tagged "ARROW_FUNCTION" [("arguments", parameters.toJson), ("body", body.toJson)] span

/-- A slot as JSON. -/
def Slot.toJson : Slot → Json
  | ⟨body, span⟩ => node [("body", body.toJson)] span

/-- A slot that may be missing as JSON. -/
def Slot.optionToJson : Option Slot → Json
  | none => .null
  | some slot => slot.toJson

/-- Slots as JSON. -/
def Slot.listToJson : List Slot → List Json
  | [] => []
  | slot :: rest => slot.toJson :: Slot.listToJson rest

/-- A key as JSON. -/
def ObjectKey.toJson : ObjectKey → Json
  | .name n => n.toTaggedJson
  | .string value span => .ofStringLiteral value span
  | .number text span => .ofNumberLiteral text span
  | .computed ⟨body, span⟩ => tagged "COMPUTED" [("body", body.toJson)] span

/-- The fields of an object literal as JSON. -/
def ObjectField.listToJson : List ObjectField → List Json
  | [] => []
  | ⟨key, value, span⟩ :: rest =>
    node [("key", key.toJson), ("value", value.toJson)] span :: ObjectField.listToJson rest

/-- A list of parameters as JSON. -/
def Parameters.toJson : Parameters → Json
  | ⟨items, span⟩ => node [("arguments", .array (Parameter.listToJson items))] span

/-- Parameters as JSON. -/
def Parameter.listToJson : List Parameter → List Json
  | [] => []
  | ⟨binding, fallback, span⟩ :: rest =>
    node [("binding", binding.toJson), ("default", Slot.optionToJson fallback)] span ::
      Parameter.listToJson rest

/-- The body of an arrow function as JSON. -/
def ArrowBody.toJson : ArrowBody → Json
  | .expression ⟨body, span⟩ => tagged "EXPRESSION" [("body", body.toJson)] span
  | .block statements span =>
    tagged "BLOCK" [("statements", .array (Statement.listToJson statements))] span

/-- A statement as JSON. -/
def Statement.toJson : Statement → Json
  | .variableDeclaration modifier name initializer span =>
    tagged "VARIABLE_DECLARATION"
      [("modifier", .string modifier.word), ("name", name.toJson),
        ("initializer", Slot.optionToJson initializer)] span
  | .functionDeclaration name parameters body span =>
    tagged "FUNCTION_DECLARATION"
      [("name", name.toJson), ("parameters", .array (parameters.map Name.toJson)),
        ("body", .array (Statement.listToJson body))] span
  | .expression ⟨body, span⟩ => tagged "EXPRESSION" [("body", body.toJson)] span

/-- Statements as JSON. -/
def Statement.listToJson : List Statement → List Json
  | [] => []
  | statement :: rest => statement.toJson :: Statement.listToJson rest
end

/-- A program as JSON. -/
def Program.toJson (program : Program) : Json :=
  node [("statements", .array (program.statements.map Statement.toJson))] program.span

end Scriptlet
