import Scriptlet.Span

/-!
# Syntax trees

The tree of a program, with the span of its text on every node. Expressions, object literals,
parameter lists and statements contain one another, so they are one mutual family. What a value
can be bound to is a family of its own: a `Binding` holds names only, never an expression.

A `Slot` is a place that holds an expression. Its span covers all that was read for it, brackets
around a bare group included, while the nodes inside keep the spans of their own text.
-/

namespace Scriptlet

/-- A name where it stands. -/
structure Name where
  text : String
  span : Span
deriving DecidableEq, Repr, Inhabited

mutual
/-- What a value can be bound to: a name, or a pattern that takes an object apart. -/
inductive Binding where
  | name (name : Name)
  | pattern (fields : List PatternField) (span : Span)

/-- One entry of a pattern: the field named `source` goes to `destination`. -/
structure PatternField where
  source : Name
  destination : Binding
  span : Span
end

/-- The three words that declare a variable. -/
inductive Modifier where
  | asVar | asLet | asConst
deriving DecidableEq, Repr, Inhabited

mutual
/-- An expression. Postfix forms hold what they apply to as their `host`; a sequence leans to the
right; an assignment occurs only as a default value or as the unpacking of an object. -/
inductive Expr where
  | name (name : Name)
  | string (value : String) (span : Span)
  | number (text : String) (span : Span)
  | field (host : Expr) (name : String) (span : Span)
  | index (host : Expr) (index : Slot) (span : Span)
  | call (host : Expr) (arguments : List Slot) (span : Span)
  | sequence (left right : Expr) (span : Span)
  | object (fields : List ObjectField) (span : Span)
  | assign (target : Binding) (source : Slot) (span : Span)
  | arrow (parameters : Parameters) (body : ArrowBody) (span : Span)

/-- A place that holds an expression, with the span of all that was read for it. -/
structure Slot where
  body : Expr
  span : Span

/-- The key of an entry of an object literal. -/
inductive ObjectKey where
  | name (name : Name)
  | string (value : String) (span : Span)
  | number (text : String) (span : Span)
  | computed (slot : Slot)

/-- An entry of an object literal. The entry `a` alone has the name `a` as key and as value. -/
structure ObjectField where
  key : ObjectKey
  value : Slot
  span : Span

/-- A parameter of an arrow function, with the value it takes when none is given. -/
structure Parameter where
  binding : Binding
  fallback : Option Slot
  span : Span

/-- The parameters of an arrow function and the span of the group that lists them. -/
structure Parameters where
  items : List Parameter
  span : Span

/-- What stands after an arrow. -/
inductive ArrowBody where
  | expression (slot : Slot)
  | block (statements : List Statement) (span : Span)

/-- A statement. -/
inductive Statement where
  | variableDeclaration (modifier : Modifier) (name : Name) (initializer : Option Slot)
      (span : Span)
  | functionDeclaration (name : Name) (parameters : List Name) (body : List Statement)
      (span : Span)
  | expression (slot : Slot)
end

/-- A whole text as a list of statements. -/
structure Program where
  statements : List Statement
  span : Span

namespace Modifier

/-- The word of a modifier. -/
def word : Modifier → String
  | asVar => "var"
  | asLet => "let"
  | asConst => "const"

/-- The modifier that a word stands for. -/
def ofWord? : String → Option Modifier
  | "var" => some asVar
  | "let" => some asLet
  | "const" => some asConst
  | _ => none

theorem ofWord?_word (modifier : Modifier) : ofWord? modifier.word = some modifier := by
  cases modifier <;> rfl

end Modifier

/-- The span of a binding. -/
def Binding.span : Binding → Span
  | .name n => n.span
  | .pattern _ span => span

/-- The span of an expression. -/
def Expr.span : Expr → Span
  | .name n => n.span
  | .string _ span => span
  | .number _ span => span
  | .field _ _ span => span
  | .index _ _ span => span
  | .call _ _ span => span
  | .sequence _ _ span => span
  | .object _ span => span
  | .assign _ _ span => span
  | .arrow _ _ span => span

/-- The slot that holds an expression and no brackets around it. -/
def Slot.bare (body : Expr) : Slot :=
  ⟨body, body.span⟩

/-- The span of a key. -/
def ObjectKey.span : ObjectKey → Span
  | .name n => n.span
  | .string _ span => span
  | .number _ span => span
  | .computed slot => slot.span

/-- The span of a statement. -/
def Statement.span : Statement → Span
  | .variableDeclaration _ _ _ span => span
  | .functionDeclaration _ _ _ span => span
  | .expression slot => slot.span

/-- The elements of a sequence, in the order of the text. Any other expression is the only element
of its sequence. -/
def Expr.elements : Expr → List Expr
  | .sequence left right _ => left :: right.elements
  | expr => [expr]

end Scriptlet
