import Scriptlet.Tree.Basic

/-!
# The nodes of a tree

Whatever has a span of its own in a program is a `Node`, and `children` lists the nodes right below
a node in the order of the declarations of its type. So what is to hold of every part of a tree,
whatever its type, is said once of nodes.
-/

namespace Scriptlet

/-- A part of a program that has a span. -/
inductive Node where
  | statement (statement : Statement)
  | slot (slot : Slot)
  | expr (expr : Expr)
  | field (field : ObjectField)
  | key (key : ObjectKey)
  | binding (binding : Binding)
  | patternField (field : PatternField)
  | parameters (parameters : Parameters)
  | parameter (parameter : Parameter)
  | block (statements : List Statement) (span : Span)
  | name (name : Name)

/-- What stands after an arrow, as a node. -/
def ArrowBody.node : ArrowBody → Node
  | .expression slot => .slot slot
  | .block statements span => .block statements span

namespace Node

/-- The span of a node. -/
def span : Node → Span
  | .statement it => it.span
  | .slot it => it.span
  | .expr it => it.span
  | .field it => it.span
  | .key it => it.span
  | .binding it => it.span
  | .patternField it => it.span
  | .parameters it => it.span
  | .parameter it => it.span
  | .block _ span => span
  | .name it => it.span

/-- The nodes right below a node. -/
def children : Node → List Node
  | .statement (.variableDeclaration _ bound initializer _) =>
    .name bound :: initializer.toList.map .slot
  | .statement (.functionDeclaration bound formals body _) =>
    .name bound :: (formals.map .name ++ body.map .statement)
  | .statement (.expression it) => [.slot it]
  | .slot it => [.expr it.body]
  | .expr (.name it) => [.name it]
  | .expr (.string _ _) => []
  | .expr (.number _ _) => []
  | .expr (.field host _ _) => [.expr host]
  | .expr (.index host index _) => [.expr host, .slot index]
  | .expr (.call host arguments _) => .expr host :: arguments.map .slot
  | .expr (.sequence left right _) => [.expr left, .expr right]
  | .expr (.object fields _) => fields.map .field
  | .expr (.assign target source _) => [.binding target, .slot source]
  | .expr (.arrow formals body _) => [.parameters formals, body.node]
  | .field it => [.key it.key, .slot it.value]
  | .key (.name it) => [.name it]
  | .key (.string _ _) => []
  | .key (.number _ _) => []
  | .key (.computed it) => [.slot it]
  | .binding (.name it) => [.name it]
  | .binding (.pattern fields _) => fields.map .patternField
  | .patternField it => [.name it.source, .binding it.destination]
  | .parameters it => it.items.map .parameter
  | .parameter it => .binding it.binding :: it.fallback.toList.map .slot
  | .block statements _ => statements.map .statement
  | .name _ => []

/-- The entry `a` of an object literal or of a pattern: its two parts are the same name. -/
def IsShorthand : Node → Prop
  | .field it => ∃ shared, it.key = .name shared ∧ it.value = .bare (.name shared)
  | .patternField it => it.destination = .name it.source
  | _ => False

/-- Both parts of a shorthand entry have one span. -/
theorem IsShorthand.span_eq {node : Node} (h : node.IsShorthand) :
    ∃ first second, node.children = [first, second] ∧ first.span = second.span := by
  cases node with
  | field it =>
      obtain ⟨shared, hkey, hvalue⟩ := h
      refine ⟨_, _, rfl, ?_⟩
      show it.key.span = it.value.span
      rw [hkey, hvalue]
      rfl
  | patternField it =>
      refine ⟨_, _, rfl, ?_⟩
      show it.source.span = it.destination.span
      rw [show it.destination = .name it.source from h]
      rfl
  | statement | slot | expr | key | binding | parameters | parameter | block | name =>
      exact h.elim

/-- What holds of a node and of every node below it. -/
inductive All (P : Node → Prop) : Node → Prop where
  | intro {node} : P node → (∀ child ∈ node.children, All P child) → All P node

namespace All

variable {P Q : Node → Prop} {node : Node}

theorem here (h : All P node) : P node := by
  cases h with
  | intro hnode _ => exact hnode

theorem children (h : All P node) : ∀ child ∈ node.children, All P child := by
  cases h with
  | intro _ hchildren => exact hchildren

theorem and (h : All P node) (hother : All Q node) : All (fun node => P node ∧ Q node) node := by
  induction h with
  | intro hnode _ ih =>
      exact .intro ⟨hnode, hother.here⟩ fun child hchild =>
        ih child hchild (hother.children child hchild)

theorem imp (h : All P node) (himp : ∀ node, P node → Q node) : All Q node := by
  induction h with
  | intro hnode _ ih => exact .intro (himp _ hnode) ih

end All

end Node

/-- The nodes of a program. -/
inductive Program.HasNode (program : Program) : Node → Prop where
  | top {statement} : statement ∈ program.statements → HasNode program (.statement statement)
  | child {node child} : HasNode program node → child ∈ node.children → HasNode program child

/-- The first node below a node. -/
theorem Program.HasNode.head {program : Program} {node child : Node} {rest : List Node}
    (h : program.HasNode node) (hchildren : node.children = child :: rest) :
    program.HasNode child :=
  .child h (hchildren ▸ List.mem_cons_self)

/-- What holds of the statements of a program and below them holds of all its nodes. -/
theorem Program.HasNode.of_all {program : Program} {P : Node → Prop} {node : Node}
    (h : program.HasNode node)
    (hall : ∀ statement ∈ program.statements, (Node.statement statement).All P) : P node := by
  suffices hnode : node.All P from hnode.here
  induction h with
  | top hmem => exact hall _ hmem
  | child _ hchild ih => exact ih.children _ hchild

end Scriptlet
