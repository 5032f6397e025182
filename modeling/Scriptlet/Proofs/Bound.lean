import Mathlib
import Scriptlet.Proofs.Sources

/-!
# Reserved words and bound names

A declaration checks the names that it binds, wherever it stands, so none of them is reserved. A
binding is read off from an expression, where every word is a name, and nothing checks it again: the
parameters of arrow functions, the destinations of patterns and the names with a default value may
be reserved words.
-/

namespace Scriptlet

open Spelling

/-- The names that a node binds itself: those of a declaration, or the name that is a binding. -/
def Node.bound : Node → List Name
  | .statement (.variableDeclaration _ it _ _) => [it]
  | .statement (.functionDeclaration it formals _ _) => it :: formals
  | .binding (.name it) => [it]
  | _ => []

/-- A name that a declaration binds is not reserved. -/
theorem Phrases.IsName.isReserved_eq {tokens : List Token} {name : Name} (h : IsName tokens name) :
    isReserved name.text = false := by
  cases h with
  | intro _ hfree => exact hfree

/-- No statement binds a reserved word itself. -/
theorem Phrases.IsBody.isReserved_eq {below : Phrases} {tokens : List Token} {statement : Statement}
    (h : below.IsBody tokens statement) :
    ∀ name ∈ (Node.statement statement).bound, isReserved name.text = false := by
  cases h with
  | declaration _ _ _ hbound _ | initialized _ _ hbound =>
      intro name hname
      obtain rfl := List.mem_singleton.1 hname
      exact hbound.isReserved_eq
  | function _ _ hbound _ hclosed _ =>
      have hformals := hclosed.forall_from (P := fun name => isReserved name.text = false)
        (fun _ _ hname _ => hname.isReserved_eq) List.infix_rfl
      exact List.forall_mem_cons.2 ⟨hbound.isReserved_eq, hformals⟩
  | expression =>
      intro name hname
      cases hname

/-- Only a binding can bind a reserved word: whatever else binds a name in a program, a declaration
of variables or of functions at any depth, binds none. -/
theorem Program.bound_reserved {source : String} {program : Program} {node : Node} {name : Name}
    (h : Program.parse source = .ok program) (hnode : program.HasNode node)
    (hname : name ∈ node.bound) (hreserved : isReserved name.text = true) :
    node = .binding (.name name) := by
  obtain ⟨found, -, hderives, -⟩ := Program.derives_of_parse h
  have hfrom := hderives.node_from hnode
  cases node with
  | statement statement =>
      obtain ⟨height, part, -, hbody⟩ := hfrom
      rw [hbody.isReserved_eq name hname] at hreserved
      cases hreserved
  | binding binding =>
      cases binding with
      | name bound => exact congrArg (Node.binding ∘ .name) (List.mem_singleton.1 hname).symm
      | pattern => cases hname
  | slot | expr | field | key | patternField | parameters | parameter | block | name =>
      cases hname

set_option maxRecDepth 4000 in
/-- The parameter of an arrow function may be a reserved word. -/
theorem Program.bound_reserved_parameter :
    ∃ program node name, Program.parse "(let) => 1;" = .ok program ∧ program.HasNode node ∧
      name ∈ node.bound ∧ isReserved name.text = true ∧ node = .binding (.name name) := by
  let program : Program := ⟨[.expression ⟨.arrow ⟨[⟨.name ⟨"let", ⟨1, 3⟩⟩, none, ⟨1, 3⟩⟩], ⟨0, 5⟩⟩
    (.expression ⟨.number "1" ⟨9, 1⟩, ⟨9, 1⟩⟩) ⟨0, 10⟩, ⟨0, 10⟩⟩], ⟨0, 11⟩⟩
  have hprogram : Program.parse "(let) => 1;" = .ok program := by cbv
  have hexpr : program.HasNode _ := ((HasNode.top List.mem_cons_self).head rfl).head rfl
  have hnode : program.HasNode (.binding (.name ⟨"let", ⟨1, 3⟩⟩)) :=
    ((hexpr.head rfl).head rfl).head rfl
  have hname : (⟨"let", ⟨1, 3⟩⟩ : Name) ∈ (Node.binding (.name ⟨"let", ⟨1, 3⟩⟩)).bound :=
    List.mem_singleton.2 rfl
  have hreserved : isReserved "let" = true := by decide
  exact ⟨program, _, _, hprogram, hnode, hname, hreserved,
    Program.bound_reserved hprogram hnode hname hreserved⟩

/-- Some node of the program binds a reserved word. -/
def Program.BindsReserved (program : Program) : Prop :=
  ∃ node name, program.HasNode node ∧ name ∈ node.bound ∧ isReserved name.text = true

set_option maxRecDepth 4000 in
/-- A parameter, the destination of a pattern and a name with a default value may be reserved
words. -/
theorem Program.exists_bindsReserved :
    (∃ program, Program.parse "(let) => 1;" = .ok program ∧ program.BindsReserved) ∧
    (∃ program, Program.parse "({a: let}) => 1;" = .ok program ∧ program.BindsReserved) ∧
    ∃ program, Program.parse "(let = 1);" = .ok program ∧ program.BindsReserved := by
  have hlet : isReserved "let" = true := by decide
  have hbinds {program : Program} (span : Span)
      (h : program.HasNode (.binding (.name ⟨"let", span⟩))) : program.BindsReserved :=
    ⟨_, _, h, List.mem_singleton.2 rfl, hlet⟩
  let parameter : Program := ⟨[.expression ⟨.arrow
    ⟨[⟨.name ⟨"let", ⟨1, 3⟩⟩, none, ⟨1, 3⟩⟩], ⟨0, 5⟩⟩
    (.expression ⟨.number "1" ⟨9, 1⟩, ⟨9, 1⟩⟩) ⟨0, 10⟩, ⟨0, 10⟩⟩], ⟨0, 11⟩⟩
  let pattern : Program := ⟨[.expression ⟨.arrow
    ⟨[⟨.pattern [⟨⟨"a", ⟨2, 1⟩⟩, .name ⟨"let", ⟨5, 3⟩⟩, ⟨2, 6⟩⟩] ⟨1, 8⟩, none, ⟨1, 8⟩⟩], ⟨0, 10⟩⟩
    (.expression ⟨.number "1" ⟨14, 1⟩, ⟨14, 1⟩⟩) ⟨0, 15⟩, ⟨0, 15⟩⟩], ⟨0, 16⟩⟩
  let fallback : Program := ⟨[.expression
    ⟨.assign (.name ⟨"let", ⟨1, 3⟩⟩) ⟨.number "1" ⟨7, 1⟩, ⟨7, 1⟩⟩ ⟨1, 7⟩, ⟨0, 9⟩⟩], ⟨0, 10⟩⟩
  have hparameter : parameter.HasNode _ :=
    (((HasNode.top List.mem_cons_self).head rfl).head rfl).head rfl
  have hpattern : pattern.HasNode _ :=
    (((HasNode.top List.mem_cons_self).head rfl).head rfl).head rfl
  have hfallback : fallback.HasNode _ :=
    ((HasNode.top List.mem_cons_self).head rfl).head rfl
  exact ⟨⟨parameter, by cbv, hbinds _ ((hparameter.head rfl).head rfl)⟩,
    ⟨pattern, by cbv, hbinds _ (.child (((hpattern.head rfl).head rfl).head rfl)
      (.tail _ List.mem_cons_self))⟩,
    ⟨fallback, by cbv, hbinds _ (hfallback.head rfl)⟩⟩

end Scriptlet
