import Scriptlet.Tree.Basic

/-!
# Expressions read again as bindings

A later token can show that an expression was no expression: an arrow makes the group before it a
list of parameters, and `=` makes the object literal before it a pattern. `Expr.toBinding` and
`Expr.toParameters` read the expression again as what it turned out to be. They go through it from
left to right, a key before its value, and stop at the first part that binds nothing.
-/

namespace Scriptlet

/-- Why a part of an expression binds nothing. -/
inductive RebindCause where
  /-- A key of a pattern that is no plain name. -/
  | keyNotName
  /-- An expression that is neither a name nor an object literal. -/
  | notBindable
deriving DecidableEq, Repr

/-- The first part of an expression that binds nothing. -/
structure Violation where
  cause : RebindCause
  span : Span
deriving DecidableEq, Repr

/-- What is said about a part that binds nothing. -/
def RebindCause.message : RebindCause → String
  | keyNotName => "destructuring keys must be plain identifiers"
  | notBindable => "expected an identifier or an object pattern"

/-- The name that is the key of a field of a pattern. -/
def ObjectKey.toName : ObjectKey → Except Violation Name
  | .name n => .ok n
  | key => .error ⟨.keyNotName, key.span⟩

mutual
/-- What an expression stands for where a value is bound. -/
def Expr.toBinding : Expr → Except Violation Binding
  | .name n => .ok (.name n)
  | .object fields span => do return .pattern (← ObjectField.toPatternFields fields) span
  | expr => .error ⟨.notBindable, expr.span⟩

/-- The fields of the pattern that the fields of an object literal stand for. -/
def ObjectField.toPatternFields : List ObjectField → Except Violation (List PatternField)
  | [] => .ok []
  | ⟨key, ⟨value, _⟩, span⟩ :: rest => do
    let source ← key.toName
    let destination ← value.toBinding
    return ⟨source, destination, span⟩ :: (← ObjectField.toPatternFields rest)
end

/-- The parameter that an element of a group stands for. -/
def Expr.toParameter : Expr → Except Violation Parameter
  | .assign target source span => .ok ⟨target, some source, span⟩
  | expr => do return ⟨← expr.toBinding, none, expr.span⟩

/-- The parameters that the content of a group stands for; `span` is the span of the group. -/
def Expr.toParameters (content : Expr) (span : Span) : Except Violation Parameters := do
  return ⟨← content.elements.mapM Expr.toParameter, span⟩

end Scriptlet
