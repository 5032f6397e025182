import Scriptlet.Proofs.Placement
import Scriptlet.Proofs.Sources

/-!
# The declarations of a program

`Node.declared` lists the declarations of a tree, at any depth, each behind those that stand inside
it. Along this list the declarations of a program stop one behind the other in the text, because
what stands inside a declaration stops before the last token of it. What can be read again as a
binding holds no declarations, so parameters hold those of the expression that they were.
-/

namespace Scriptlet

/-! ## The declarations of a tree -/

/-- Whether a statement declares a variable or a function. -/
def Statement.isDeclaration : Statement → Bool
  | .variableDeclaration _ _ _ _ => true
  | .functionDeclaration _ _ _ _ => true
  | .expression _ => false

theorem ArrowBody.sizeOf_node (body : ArrowBody) : sizeOf body.node = sizeOf body := by
  cases body <;> simp [ArrowBody.node]

namespace Node

/-- The nodes right below a node are smaller, so what is listed of a node can be listed of these
first. -/
theorem sizeOf_lt_of_mem_children {node child : Node} (h : child ∈ node.children) :
    sizeOf child < sizeOf node := by
  cases node with
  | statement it | slot it | expr it | field it | key it | binding it | patternField it
  | parameters it | parameter it =>
      cases it <;> simp [children] at h ⊢ <;>
        grind [→ List.sizeOf_lt_of_mem, ArrowBody.sizeOf_node]
  | block statements span =>
      simp only [children, List.mem_map] at h
      obtain ⟨it, hmem, rfl⟩ := h
      have hlt := List.sizeOf_lt_of_mem hmem
      simp only [statement.sizeOf_spec, block.sizeOf_spec]
      omega
  | name it => exact absurd h List.not_mem_nil

/-- The declaration that a node is, if it is one. -/
def declaration? : Node → Option Statement
  | .statement it => if it.isDeclaration then some it else none
  | _ => none

theorem eq_of_mem_declaration? {node : Node} {statement : Statement}
    (h : statement ∈ node.declaration?) :
    node = .statement statement ∧ statement.isDeclaration = true := by
  unfold declaration? at h
  split at h
  · split at h
    · next hdeclares =>
      cases h
      exact ⟨rfl, hdeclares⟩
    · cases h
  · cases h

/-- The declarations at a node and below it, in the order in which they are complete. -/
def declared (node : Node) : List Statement :=
  node.children.attach.flatMap (fun child => child.val.declared) ++ node.declaration?.toList
termination_by sizeOf node
decreasing_by exact sizeOf_lt_of_mem_children child.property

/-- A declaration is complete behind those below it, and these are so from left to right. -/
theorem declared_eq (node : Node) :
    node.declared = node.children.flatMap declared ++ node.declaration?.toList := by
  rw [declared, List.flatMap_subtype (fun _ _ => rfl), List.unattach_attach]

/-- What is declared at a node is declared below it or is the node. -/
theorem mem_declared_iff {node : Node} {statement : Statement} :
    statement ∈ node.declared ↔
      (∃ child ∈ node.children, statement ∈ child.declared) ∨
        statement ∈ node.declaration? := by
  rw [declared_eq, List.mem_append, List.mem_flatMap, Option.mem_toList, Option.mem_def]

/-- A node holds no declarations if it is none and the nodes right below it hold none. -/
theorem declared_eq_nil {node : Node} (hnode : node.declaration? = none)
    (h : ∀ child ∈ node.children, child.declared = []) : node.declared = [] := by
  rw [declared_eq, hnode, Option.toList_none, List.append_nil]
  exact List.flatMap_eq_nil_iff.2 h

end Node

/-- The declarations of a program, in the order in which they are complete. -/
def Program.declared (program : Program) : List Statement :=
  program.statements.flatMap fun statement => (Node.statement statement).declared

/-- What is declared below a node of a program is a node of the program. -/
theorem Program.HasNode.of_declared {program : Program} {node : Node} {statement : Statement}
    (hnode : program.HasNode node) (h : statement ∈ node.declared) :
    program.HasNode (.statement statement) ∧ statement.isDeclaration = true := by
  rcases Node.mem_declared_iff.1 h with ⟨child, hchild, hmem⟩ | hhere
  · exact of_declared (.child hnode hchild) hmem
  · obtain ⟨rfl, hdeclares⟩ := Node.eq_of_mem_declaration? hhere
    exact ⟨hnode, hdeclares⟩
termination_by sizeOf node
decreasing_by exact Node.sizeOf_lt_of_mem_children hchild

/-- What is declared below a node of a program is declared by the program. -/
theorem Program.HasNode.declared_subset {program : Program} {node : Node}
    (h : program.HasNode node) : node.declared ⊆ program.declared := by
  induction h with
  | top hmem => exact fun _ hdeclared => List.mem_flatMap.2 ⟨_, hmem, hdeclared⟩
  | child _ hchild ih =>
      exact fun _ hdeclared => ih (Node.mem_declared_iff.2 (.inl ⟨_, hchild, hdeclared⟩))

/-- The declarations of a program are those statements of its tree that declare something. -/
theorem Program.mem_declared_iff {program : Program} {statement : Statement} :
    statement ∈ program.declared ↔
      program.HasNode (.statement statement) ∧ statement.isDeclaration = true := by
  constructor
  · intro h
    obtain ⟨top, htop, hmem⟩ := List.mem_flatMap.1 h
    exact Program.HasNode.of_declared (.top htop) hmem
  · rintro ⟨hnode, hdeclares⟩
    refine hnode.declared_subset (Node.mem_declared_iff.2 (.inr ?_))
    simp [Node.declaration?, hdeclares]

/-! ## Expressions read again as bindings -/

theorem Name.declared_eq_nil (name : Name) : (Node.name name).declared = [] :=
  Node.declared_eq_nil rfl (List.forall_mem_nil _)

mutual
/-- A binding holds no declarations. -/
theorem Binding.declared_eq_nil : ∀ binding : Binding, (Node.binding binding).declared = []
  | .name name => Node.declared_eq_nil rfl (List.forall_mem_singleton.2 name.declared_eq_nil)
  | .pattern fields _ =>
      Node.declared_eq_nil rfl (List.forall_mem_map.2 (PatternField.declared_eq_nil fields))

theorem PatternField.declared_eq_nil : ∀ fields : List PatternField,
    ∀ field ∈ fields, (Node.patternField field).declared = []
  | [] => List.forall_mem_nil _
  | ⟨source, destination, _⟩ :: rest =>
      List.forall_mem_cons.2 ⟨Node.declared_eq_nil rfl
        (forall_mem_pair.2 ⟨source.declared_eq_nil, Binding.declared_eq_nil destination⟩),
        PatternField.declared_eq_nil rest⟩
end

mutual
/-- What stands for a binding holds no declarations. -/
theorem Expr.StandsFor.declared_eq_nil : ∀ {expr : Expr} {binding : Binding},
    expr.StandsFor binding → (Node.expr expr).declared = []
  | .name name, _, .name =>
      Node.declared_eq_nil rfl (List.forall_mem_singleton.2 name.declared_eq_nil)
  | _, _, .object hitems =>
      Node.declared_eq_nil rfl
        (List.forall_mem_map.2 (ObjectField.StandsFor.declared_eq_nil hitems))

theorem ObjectField.StandsFor.declared_eq_nil : ∀ {fields : List ObjectField}
    {items : List PatternField}, List.Forall₂ ObjectField.StandsFor fields items →
      ∀ field ∈ fields, (Node.field field).declared = []
  | _, _, .nil => List.forall_mem_nil _
  | _, _, .cons (@ObjectField.StandsFor.intro source value _ outer _ hvalue) hitems => by
      have hkey : (Node.key (.name source)).declared = [] :=
        Node.declared_eq_nil rfl (List.forall_mem_singleton.2 source.declared_eq_nil)
      have hslot : (Node.slot ⟨value, outer⟩).declared = [] := Node.declared_eq_nil rfl
        (List.forall_mem_singleton.2 (Expr.StandsFor.declared_eq_nil hvalue))
      exact List.forall_mem_cons.2 ⟨Node.declared_eq_nil rfl (forall_mem_pair.2 ⟨hkey, hslot⟩),
        ObjectField.StandsFor.declared_eq_nil hitems⟩
end

/-- The elements of a sequence hold its declarations. -/
theorem Expr.declared_elements : ∀ expr : Expr,
    expr.elements.flatMap (fun element => (Node.expr element).declared) = (Node.expr expr).declared
  | .sequence left right _ => by
      rw [Expr.elements, List.flatMap_cons, Expr.declared_elements right,
        Node.declared_eq (.expr (.sequence _ _ _))]
      simp [Node.children, Node.declaration?]
  | .name _ | .string _ _ | .number _ _ | .field _ _ _ | .index _ _ _ | .call _ _ _
  | .object _ _ | .assign _ _ _ | .arrow _ _ _ => List.append_nil _

/-- A parameter holds the declarations of the expression that stands for it. -/
theorem Expr.StandsForParameter.declared_eq {expr : Expr} {item : Parameter}
    (h : expr.StandsForParameter item) :
    (Node.parameter item).declared = (Node.expr expr).declared := by
  cases h with
  | assign =>
      rw [Node.declared_eq, Node.declared_eq]
      rfl
  | plain hbinding =>
      rw [hbinding.declared_eq_nil]
      exact Node.declared_eq_nil rfl (List.forall_mem_singleton.2 (Binding.declared_eq_nil _))

/-- Parameters hold the declarations of the content of their group. -/
theorem Expr.toParameters_declared {content : Expr} {span : Span} {parameters : Parameters}
    (h : content.toParameters span = .ok parameters) :
    (Node.parameters parameters).declared = (Node.expr content).declared := by
  obtain ⟨-, hitems⟩ := (Expr.toParameters_eq_ok_iff _ _ _).1 h
  rw [← Expr.declared_elements, Node.declared_eq]
  simp only [Node.children, Node.declaration?, Option.toList_none, List.append_nil,
    List.flatMap_map]
  clear h
  generalize content.elements = elements at hitems ⊢
  generalize parameters.items = items at hitems ⊢
  induction hitems with
  | nil => rfl
  | cons hitem _ ih => rw [List.flatMap_cons, List.flatMap_cons, hitem.declared_eq, ih]

/-! ## The last token of a declaration -/

/-- A span on some tokens stops before the token behind them does. -/
theorem Span.On.stop_lt {span : Span} {initial : List Token} {last : Token}
    (h : span.On initial) (hordered : Ordered (initial ++ [last])) :
    span.stop < last.span.stop := by
  obtain ⟨token, htoken, hstop⟩ := h.stops
  have hbefore := hordered.stop_le htoken (List.mem_singleton.2 rfl)
  have hnonempty := hordered.nonempty last (by simp)
  omega

/-- What stands inside a declaration stops before it. -/
def Node.StopsBehind (node : Node) : Prop :=
  ∀ statement ∈ node.declaration?, ∀ child ∈ node.children, child.span.stop < statement.span.stop

namespace Phrases

variable {below : Phrases} {tokens : List Token} {statement : Statement}

/-- What stands inside a declaration is on the tokens before the last one of it. -/
theorem IsBody.exists_last (hplaces : below.Places) (hopens : below.Opens)
    (h : below.IsBody tokens statement) (hdeclares : statement.isDeclaration = true)
    (hordered : Ordered tokens) :
    ∃ initial last, tokens = initial ++ [last] ∧ statement.span = cover tokens ∧
      ∀ child ∈ (Node.statement statement).children, child.span.On initial := by
  cases h with
  | @declaration keyword _ tokens name semicolon _ _ _ hname _ =>
      refine ⟨keyword :: tokens, semicolon, rfl, rfl, List.forall_mem_singleton.2 ?_⟩
      exact (hname.placed hordered.tail.left).here.span.mono (List.subset_cons_self _ _)
  | @initialized keyword _ before name assign more value semicolon _ _ hname _ hslot _ =>
      refine ⟨keyword :: (before ++ assign :: more), semicolon, by simp, rfl,
        forall_mem_pair.2 ⟨?_, ?_⟩⟩
      · exact (hname.placed hordered.tail.left).here.span.mono fun _ hmem => by simp [hmem]
      · exact (hslot.placed hplaces hopens hordered.tail.right.tail.left).here.span.mono
          fun _ hmem => by simp [hmem]
  | @function keyword before name bracket more parameters block statements _ _ hname _ hclosed
      hblock =>
      have hinner := hordered.tail.right.tail
      have hparameters := hclosed.row .name (fun _ _ => IsName.placed) hinner.left
      cases hblock with
      | @intro brace series statements close _ hseries _ =>
          have hbody := hseries.row .statement (fun _ _ => hplaces.statement) hinner.right.tail.left
          refine ⟨keyword :: (before ++ bracket :: (more ++ brace :: series)), close, by simp, rfl,
            List.forall_mem_cons.2 ⟨?_, List.forall_mem_append.2 ⟨?_, ?_⟩⟩⟩
          · exact (hname.placed hordered.tail.left).here.span.mono fun _ hmem => by simp [hmem]
          · exact fun child hchild => (hparameters.placed child hchild).here.span.mono
              fun _ hmem => by simp [hmem]
          · exact fun child hchild => (hbody.placed child hchild).here.span.mono
              fun _ hmem => by simp [hmem]
  | expression => cases hdeclares

end Phrases

/-- What comes from tokens of a text stops behind what stands inside it if it is a declaration. -/
theorem Node.From.stopsBehind {found : List Token} {node : Node} (h : node.From found)
    (hordered : Ordered found) : node.StopsBehind := by
  intro statement hstatement child hchild
  obtain ⟨rfl, hdeclares⟩ := eq_of_mem_declaration? hstatement
  obtain ⟨height, part, ⟨before, after, rfl⟩, hbody⟩ := h
  obtain ⟨initial, last, rfl, hspan, hinside⟩ := hbody.exists_last (Phrases.places_ofHeight height)
    (Phrases.opens_ofHeight height) hdeclares hordered.left.right
  have hpart := hordered.left.right
  have hlast : (cover [last]).On (initial ++ [last]) :=
    (Span.On.cover hpart.right (List.cons_ne_nil _ _)).mono
      (List.subset_append_right initial [last])
  have hle := (hlast.within_cover hpart).stop
  rw [cover_singleton, ← hspan] at hle
  exact Nat.lt_of_lt_of_le ((hinside child hchild).stop_lt hpart) hle

/-! ## Where declarations stop -/

/-- Statements of which each stops further on than those before it. -/
def Statement.Increasing (statements : List Statement) : Prop :=
  statements.Pairwise fun first second => first.span.stop < second.span.stop

namespace Node

/-- A shorthand entry holds no declarations. -/
theorem IsShorthand.declared_eq_nil {node : Node} (h : node.IsShorthand) :
    ∀ child ∈ node.children, child.declared = [] := by
  cases node with
  | field it =>
      obtain ⟨shared, hkey, hvalue⟩ := h
      refine forall_mem_pair.2 ⟨?_, ?_⟩
      · rw [hkey]
        exact Node.declared_eq_nil rfl (List.forall_mem_singleton.2 shared.declared_eq_nil)
      · rw [hvalue]
        exact Node.declared_eq_nil rfl (List.forall_mem_singleton.2
          (Node.declared_eq_nil rfl (List.forall_mem_singleton.2 shared.declared_eq_nil)))
  | patternField it =>
      exact forall_mem_pair.2 ⟨it.source.declared_eq_nil, it.destination.declared_eq_nil⟩
  | statement | slot | expr | key | binding | parameters | parameter | block | name =>
      exact h.elim

/-- The declarations at a node and below it stop one behind the other, all within the node. -/
structure InOrder (node : Node) : Prop where
  increasing : Statement.Increasing node.declared
  nonempty : ∀ statement ∈ node.declared, statement.span.offset < statement.span.stop
  within : ∀ statement ∈ node.declared, statement.span.Within node.span

/-- Of nodes one behind the other, all declarations stop one behind the other. -/
theorem increasing_flatMap {nodes : List Node} (hbefore : nodes.Pairwise Before)
    (h : ∀ node ∈ nodes, node.InOrder) : Statement.Increasing (nodes.flatMap declared) := by
  refine List.pairwise_flatMap.2 ⟨fun node hnode => (h node hnode).increasing,
    hbefore.imp_of_mem fun {first second} hfirst hsecond hbefore left hleft right hright => ?_⟩
  have hstop := ((h first hfirst).within left hleft).stop
  have hoffset := ((h second hsecond).within right hright).offset
  have hnonempty := (h second hsecond).nonempty right hright
  have hle : first.span.stop ≤ second.span.offset := hbefore
  omega

/-- Where every node is placed and declarations stop behind what is inside them, they are in
order. -/
theorem All.inOrder {found : List Token} {node : Node}
    (h : node.All fun node => node.Placed found ∧ node.StopsBehind) : node.InOrder := by
  induction h with
  | @intro node hnode _ ih =>
      obtain ⟨hplaced, hstops⟩ := hnode
      have hbelow : Statement.Increasing (node.children.flatMap declared) := by
        rcases hplaced.inOrder with hshorthand | hbefore
        · rw [List.flatMap_eq_nil_iff.2 hshorthand.declared_eq_nil]
          exact .nil
        · exact increasing_flatMap hbefore ih
      constructor
      · rw [declared_eq]
        refine List.pairwise_append.2 ⟨hbelow, ?_, fun inner hinner outer houter => ?_⟩
        · cases node.declaration? <;> simp
        · obtain ⟨child, hchild, hinner⟩ := List.mem_flatMap.1 hinner
          have hstop := ((ih child hchild).within inner hinner).stop
          have hlt := hstops outer (Option.mem_toList.1 houter) child hchild
          omega
      · intro statement hdeclared
        rcases mem_declared_iff.1 hdeclared with ⟨child, hchild, hinner⟩ | hhere
        · exact (ih child hchild).nonempty statement hinner
        · obtain ⟨rfl, -⟩ := eq_of_mem_declaration? hhere
          exact hplaced.span.nonempty
      · intro statement hdeclared
        rcases mem_declared_iff.1 hdeclared with ⟨child, hchild, hinner⟩ | hhere
        · exact ((ih child hchild).within statement hinner).trans (hplaced.within child hchild)
        · obtain ⟨rfl, -⟩ := eq_of_mem_declaration? hhere
          exact ⟨Nat.le_refl _, Nat.le_refl _⟩

end Node

/-- The declarations of a program stop one behind the other in the text. -/
theorem Program.increasing_declared {source : String} {program : Program}
    (h : Program.parse source = .ok program) : Statement.Increasing program.declared := by
  obtain ⟨found, hfound, hderives, -⟩ := Program.derives_of_parse h
  obtain ⟨there, hreads, -⟩ := Reads.start_tokens_eq_ok_iff.1 (tokens_eq_ok_iff.1 hfound)
  have hordered := hreads.ordered.1
  have hrow : Node.Row found (program.statements.map .statement) :=
    Phrases.Series.row .statement (fun _ _ => (Phrases.places_ofHeight nestingLimit).statement)
      hderives hordered
  have hfrom : ∀ statement ∈ program.statements, (Node.statement statement).All (Node.From found) :=
    Phrases.Series.forall_from (fun _ _ => (Phrases.comeFrom_ofHeight nestingLimit).statement)
      hderives List.infix_rfl
  rw [Program.declared, ← List.flatMap_map]
  refine Node.increasing_flatMap hrow.inOrder (List.forall_mem_map.2 fun statement hmem => ?_)
  have hplaced := hrow.placed _ (List.mem_map_of_mem hmem)
  have hstops := (hfrom statement hmem).imp fun node hnode => hnode.stopsBehind hordered
  exact (hplaced.and hstops).inOrder

end Scriptlet
