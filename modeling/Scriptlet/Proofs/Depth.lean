import Mathlib
import Scriptlet.Proofs.Exactness
import Scriptlet.Proofs.Sources
import Scriptlet.Proofs.Words

/-!
# The depth of a tree

A path goes down a tree from a statement of the program, node by node. What counts on it are the
statements, the slots that are read by themselves, and the steps to the rest of a sequence: each of
them was a level of nesting while it was parsed. Hosts of accesses and calls count for nothing,
however many there are. `node.Fits room` says that every path below a node counts no more than the
room there is; each production of the grammar keeps it, one level of the grammar for each unit.
-/

namespace Scriptlet

namespace Node

/-! ## Paths -/

/-- What a node counts on a path. -/
def weight : Node → Nat
  | .statement _ => 1
  | .slot _ => 1
  | _ => 0

/-- The nodes right below a node, each with what the step to it counts. The rest of a sequence
counts though it is no slot, and the value of a shorthand entry does not count though it is one. -/
def steps : Node → List (Nat × Node)
  | .expr (.sequence left right _) => [(0, .expr left), (1, .expr right)]
  | .field it =>
    [(0, .key it.key), (if it.key.isShared it.value.body then 0 else 1, .slot it.value)]
  | node => node.children.map fun child => (child.weight, child)

/-- Every node right below a node is a step away. -/
theorem map_steps (node : Node) : node.steps.map Prod.snd = node.children := by
  unfold steps
  split
  · rfl
  · rfl
  · rw [List.map_map]
    exact List.map_id _

end Node

/-- A path from the top of a program to a node, and what counts on it, the node included. -/
inductive Program.Path (program : Program) : Nat → Node → Prop where
  | top {statement} : statement ∈ program.statements → Path program 1 (.statement statement)
  | step {depth node cost child} :
      Path program depth node → (cost, child) ∈ node.steps → Path program (depth + cost) child

/-- What a path comes to is a node of the program. -/
theorem Program.Path.hasNode {program : Program} {depth : Nat} {node : Node}
    (h : program.Path depth node) : program.HasNode node := by
  induction h with
  | top hmem => exact .top hmem
  | @step _ node cost child _ hstep ih =>
      refine ih.child ?_
      rw [← node.map_steps]
      exact List.mem_map_of_mem hstep

/-- Some path leads to every node of a program. -/
theorem Program.HasNode.exists_path {program : Program} {node : Node} (h : program.HasNode node) :
    ∃ depth, program.Path depth node := by
  induction h with
  | top hmem => exact ⟨1, .top hmem⟩
  | @child node child _ hchild ih =>
      obtain ⟨depth, hpath⟩ := ih
      rw [← node.map_steps] at hchild
      obtain ⟨⟨cost, _⟩, hstep, rfl⟩ := List.mem_map.1 hchild
      exact ⟨depth + cost, hpath.step hstep⟩

/-! ## Room -/

namespace Node

/-- Every path below a node counts no more than the room there is. -/
inductive Fits : Nat → Node → Prop where
  | intro {room node} :
      (∀ step ∈ node.steps, step.1 ≤ room) →
      (∀ step ∈ node.steps, Fits (room - step.1) step.2) → Fits room node

/-- A step fits where there is room for it and, behind it, for the node that it leads to. -/
def StepFits (room : Nat) (step : Nat × Node) : Prop :=
  step.1 ≤ room ∧ step.2.Fits (room - step.1)

/-- There is room for a node that counts, and below it for all its paths. -/
def Enters (height : Nat) (node : Node) : Prop :=
  ∃ room, height = room + 1 ∧ node.Fits room

variable {room more height : Nat} {node : Node}

theorem fits_iff : node.Fits room ↔ ∀ step ∈ node.steps, StepFits room step := by
  constructor
  · rintro ⟨hcost, hbelow⟩ step hstep
    exact ⟨hcost step hstep, hbelow step hstep⟩
  · exact fun h => .intro (fun step hstep => (h step hstep).1) fun step hstep => (h step hstep).2

theorem Fits.mono (h : node.Fits room) (hle : room ≤ more) : node.Fits more := by
  induction h generalizing more with
  | @intro room node hcost _ ih =>
      refine .intro (fun step hstep => Nat.le_trans (hcost step hstep) hle) fun step hstep => ?_
      exact ih step hstep (Nat.sub_le_sub_right hle _)

/-- A step that does not count needs room behind it only. -/
theorem Fits.free (h : node.Fits room) : StepFits room (0, node) :=
  ⟨Nat.zero_le room, h⟩

theorem Enters.fits (h : node.Enters height) : node.Fits height := by
  obtain ⟨room, rfl, hfits⟩ := h
  exact hfits.mono (Nat.le_succ room)

/-- A step that counts leads to a node that there is room to enter. -/
theorem Enters.paid (h : node.Enters height) : StepFits height (1, node) := by
  obtain ⟨room, rfl, hfits⟩ := h
  exact ⟨Nat.le_add_left 1 room, hfits⟩

/-- Where all steps are alike, what is below them fits step by step. -/
theorem stepFits_map {α : Type} {toNode : α → Node} {cost : Nat} {items : List α}
    (hweight : ∀ item, (toNode item).weight = cost)
    (h : ∀ item ∈ items, StepFits room (cost, toNode item)) :
    ∀ step ∈ (items.map toNode).map fun child => (child.weight, child), StepFits room step := by
  intro step hstep
  obtain ⟨_, hchild, rfl⟩ := List.mem_map.1 hstep
  obtain ⟨item, hitem, rfl⟩ := List.mem_map.1 hchild
  rw [hweight item]
  exact h item hitem

/-- What has no nodes below it needs no room. -/
theorem Fits.leaf (h : node.children = []) : node.Fits room := by
  have hsteps : node.steps = [] := List.map_eq_nil_iff.1 (node.map_steps.trans h)
  rw [fits_iff, hsteps]
  exact List.forall_mem_nil _

end Node

/-! ## Names and bindings -/

section

variable {room : Nat}

/-- A name needs no room. -/
theorem Name.fits (name : Name) : (Node.name name).Fits room :=
  .leaf rfl

mutual
/-- A binding needs no room: it holds neither statements nor slots. -/
theorem Binding.fits : ∀ binding : Binding, (Node.binding binding).Fits room
  | .name name => Node.fits_iff.2 (List.forall_mem_singleton.2 name.fits.free)
  | .pattern fields _ =>
      Node.fits_iff.2 (Node.stepFits_map (fun _ => rfl) fun field hfield =>
        (PatternField.fits fields field hfield).free)

theorem PatternField.fits : ∀ fields : List PatternField,
    ∀ field ∈ fields, (Node.patternField field).Fits room
  | [] => by simp
  | ⟨source, destination, _⟩ :: rest =>
      List.forall_mem_cons.2 ⟨Node.fits_iff.2 (forall_mem_pair.2
        ⟨source.fits.free, (Binding.fits destination).free⟩), PatternField.fits rest⟩
end

end

/-! ## Parameters -/

section

variable {room : Nat}

/-- The elements of a sequence fit where the sequence does. -/
theorem Expr.fits_elements : ∀ {expr : Expr}, (Node.expr expr).Fits room →
    ∀ element ∈ expr.elements, (Node.expr element).Fits room
  | .sequence left right _, h => by
      obtain ⟨hleft, -, hright⟩ := forall_mem_pair.1 (Node.fits_iff.1 h)
      exact List.forall_mem_cons.2
        ⟨hleft.2, Expr.fits_elements (hright.mono (Nat.sub_le room 1))⟩
  | .name _, h | .string _ _, h | .number _ _, h | .field _ _ _, h | .index _ _ _, h
  | .call _ _ _, h | .object _ _, h | .assign _ _ _, h | .arrow _ _ _, h =>
      List.forall_mem_singleton.2 h

/-- A parameter fits where the expression does that stands for it. -/
theorem Expr.StandsForParameter.fits {expr : Expr} {item : Parameter}
    (h : expr.StandsForParameter item) (hexpr : (Node.expr expr).Fits room) :
    (Node.parameter item).Fits room := by
  cases h with
  | assign =>
      have hsteps := Node.fits_iff.1 hexpr
      exact Node.fits_iff.2 hsteps
  | plain => exact Node.fits_iff.2 (List.forall_mem_singleton.2 (Binding.fits _).free)

/-- Parameters fit where the content of the group does that they were. -/
theorem Expr.toParameters_fits {content : Expr} {span : Span} {parameters : Parameters}
    (h : content.toParameters span = .ok parameters) (hcontent : (Node.expr content).Fits room) :
    (Node.parameters parameters).Fits room := by
  obtain ⟨-, hitems⟩ := (Expr.toParameters_eq_ok_iff _ _ _).1 h
  have hfits := Expr.forall_mem_parameters hitems Expr.StandsForParameter.fits
    (Expr.fits_elements hcontent)
  exact Node.fits_iff.2 (Node.stepFits_map (fun _ => rfl) fun item hitem => (hfits item hitem).free)

end

/-! ## Productions -/

namespace Phrases

/-- What some phrases derive has room to enter. -/
structure Shallow (phrases : Phrases) (height : Nat) : Prop where
  expr {mode tokens expr} : phrases.expr mode tokens expr → (Node.expr expr).Enters height
  statement {tokens statement} :
    phrases.statement tokens statement → (Node.statement statement).Enters height

/-! ### Lists -/

section

variable {α : Type} {item : List Token → α → Prop} {P : α → Prop} {tokens : List Token}
  {values : List α}

theorem Series.forall_mem (h : Series item tokens values)
    (hitem : ∀ tokens value, item tokens value → P value) : ∀ value ∈ values, P value := by
  induction h with
  | nil => simp
  | cons hvalue _ ih => exact List.forall_mem_cons.2 ⟨hitem _ _ hvalue, ih⟩

theorem Listed.forall_mem (h : Listed item tokens values)
    (hitem : ∀ tokens value, item tokens value → P value) : ∀ value ∈ values, P value := by
  induction h with
  | last hvalue => exact List.forall_mem_singleton.2 (hitem _ _ hvalue)
  | more hvalue _ _ ih => exact List.forall_mem_cons.2 ⟨hitem _ _ hvalue, ih⟩

theorem Closed.forall_mem (h : Closed item tokens values)
    (hitem : ∀ tokens value, item tokens value → P value) : ∀ value ∈ values, P value := by
  cases h with
  | empty => simp
  | filled hlisted _ => exact hlisted.forall_mem hitem

end

variable {below : Phrases} {height : Nat} (hbelow : below.Shallow height) {mode : Mode}
  {start : Nat} {tokens : List Token} {node expr : Expr}

include hbelow

/-! ### Slots, blocks and object literals -/

/-- A slot counts for the expression in it. -/
theorem IsSlot.enters {slot : Slot} (h : below.IsSlot mode tokens slot) :
    (Node.slot slot).Enters height := by
  cases h with
  | intro hexpr =>
      obtain ⟨room, rfl, hfits⟩ := hbelow.expr hexpr
      exact ⟨room, rfl, Node.fits_iff.2 (List.forall_mem_singleton.2 hfits.free)⟩

theorem IsBlock.enters {statements : List Statement} (h : below.IsBlock tokens statements) :
    ∀ statement ∈ statements, (Node.statement statement).Enters height := by
  cases h with
  | intro _ hseries _ => exact hseries.forall_mem fun _ _ => hbelow.statement

theorem IsKey.fits {key : ObjectKey} (h : below.IsKey tokens key) :
    (Node.key key).Fits height := by
  cases h with
  | name => exact Node.fits_iff.2 (List.forall_mem_singleton.2 (Name.fits _).free)
  | string | number => exact .leaf rfl
  | computed _ hslot _ =>
      exact Node.fits_iff.2 (List.forall_mem_singleton.2 (hslot.enters hbelow).paid)

theorem IsField.fits {field : ObjectField} (h : below.IsField tokens field) :
    (Node.field field).Fits height := by
  cases h with
  | @shorthand token hkind =>
      have hname : (Node.expr (.name ⟨token.text, token.span⟩)).Fits height :=
        Node.fits_iff.2 (List.forall_mem_singleton.2 (Name.fits _).free)
      refine Node.fits_iff.2 (forall_mem_pair.2 ⟨Node.Fits.free ?_, ?_⟩)
      · exact Node.fits_iff.2 (List.forall_mem_singleton.2 (Name.fits _).free)
      -- The value is the key once more, so it does not count.
      · have hshared : (ObjectKey.name ⟨token.text, token.span⟩).isShared
            (.name ⟨token.text, token.span⟩) = true := by
          simp [ObjectKey.isShared, Expr.isName]
        rw [Slot.bare, if_pos hshared]
        exact Node.Fits.free (Node.fits_iff.2 (List.forall_mem_singleton.2 hname.free))
  | entry hkey _ hslot =>
      refine Node.fits_iff.2 (forall_mem_pair.2 ⟨(hkey.fits hbelow).free, ?_⟩)
      split
      · exact (hslot.enters hbelow).fits.free
      · exact (hslot.enters hbelow).paid

theorem IsFields.fits {fields : List ObjectField} (h : below.IsFields tokens fields) :
    ∀ field ∈ fields, (Node.field field).Fits height := by
  induction h with
  | nil => simp
  | last hfield => exact List.forall_mem_singleton.2 (hfield.fits hbelow)
  | more hfield _ _ ih => exact List.forall_mem_cons.2 ⟨hfield.fits hbelow, ih⟩

theorem IsObject.fits {literal : Expr} (h : below.IsObject tokens literal) :
    (Node.expr literal).Fits height := by
  cases h with
  | intro _ hfields _ =>
      exact Node.fits_iff.2 (Node.stepFits_map (fun _ => rfl) fun field hfield =>
        (hfields.fits hbelow field hfield).free)

/-! ### Expressions -/

theorem IsPrimary.fits (h : below.IsPrimary tokens node) : (Node.expr node).Fits height := by
  cases h with
  | name => exact Node.fits_iff.2 (List.forall_mem_singleton.2 (Name.fits _).free)
  | string | number => exact .leaf rfl
  | group _ hcontent _ => exact (hbelow.expr hcontent).fits
  | object hobject => exact hobject.fits hbelow

theorem IsEnd.fits (h : below.IsEnd mode start node tokens expr)
    (hnode : (Node.expr node).Fits height) : (Node.expr expr).Fits height := by
  cases h with
  | stop => exact hnode
  | comma _ _ hright =>
      exact Node.fits_iff.2 (forall_mem_pair.2 ⟨hnode.free, (hbelow.expr hright).paid⟩)

/-- An access or a call does not count, however many there are. -/
theorem IsLink.fits {next : Expr} (h : below.IsLink start node tokens next)
    (hnode : (Node.expr node).Fits height) : (Node.expr next).Fits height := by
  cases h with
  | field => exact Node.fits_iff.2 (List.forall_mem_singleton.2 hnode.free)
  | index _ hslot _ =>
      exact Node.fits_iff.2 (forall_mem_pair.2 ⟨hnode.free, (hslot.enters hbelow).paid⟩)
  | call _ hclosed =>
      have harguments := hclosed.forall_mem fun _ _ hslot => (hslot.enters hbelow).paid
      exact Node.fits_iff.2 (List.forall_mem_cons.2
        ⟨hnode.free, Node.stepFits_map (fun _ => rfl) harguments⟩)

/-- A default value, or what is unpacked, and what it is for. -/
theorem fits_assign {target : Binding} {source : Slot} {span : Span}
    (h : below.IsSlot mode tokens source) :
    (Node.expr (.assign target source span)).Fits height :=
  Node.fits_iff.2 (forall_mem_pair.2 ⟨target.fits.free, (h.enters hbelow).paid⟩)

theorem IsTail.fits (h : below.IsTail mode start node tokens expr)
    (hnode : (Node.expr node).Fits height) : (Node.expr expr).Fits height := by
  induction h with
  | done hend => exact hend.fits hbelow hnode
  | link hlink _ ih => exact ih (hlink.fits hbelow hnode)
  | fallback _ _ hslot hend => exact hend.fits hbelow (fits_assign hbelow hslot)

theorem IsParameters.fits {parameters : Parameters} (h : below.IsParameters tokens parameters) :
    (Node.parameters parameters).Fits height := by
  cases h with
  | empty => exact .leaf rfl
  | group _ hcontent _ hparameters =>
      exact Expr.toParameters_fits hparameters (hbelow.expr hcontent).fits

theorem IsExpression.fits (h : below.IsExpression mode tokens expr) :
    (Node.expr expr).Fits height := by
  cases h with
  | chain hprimary htail => exact htail.fits hbelow (hprimary.fits hbelow)
  | unpacking _ _ _ hslot hend => exact hend.fits hbelow (fits_assign hbelow hslot)
  | arrow hparameters _ _ hslot =>
      exact Node.fits_iff.2 (forall_mem_pair.2
        ⟨(hparameters.fits hbelow).free, (hslot.enters hbelow).paid⟩)
  | @arrowBlock _ _ _ more statements _ _ hparameters _ hblock htail =>
      have hbody : (Node.block statements (cover more)).Fits height :=
        Node.fits_iff.2 (Node.stepFits_map (fun _ => rfl) fun statement hstatement =>
          (hblock.enters hbelow statement hstatement).paid)
      exact htail.fits hbelow (Node.fits_iff.2 (forall_mem_pair.2
        ⟨(hparameters.fits hbelow).free, hbody.free⟩))

/-! ### Statements -/

theorem IsBody.fits {statement : Statement} (h : below.IsBody tokens statement) :
    (Node.statement statement).Fits height := by
  cases h with
  | declaration => exact Node.fits_iff.2 (List.forall_mem_singleton.2 (Name.fits _).free)
  | initialized _ _ _ _ hslot _ =>
      exact Node.fits_iff.2 (forall_mem_pair.2 ⟨(Name.fits _).free, (hslot.enters hbelow).paid⟩)
  | function _ _ _ _ _ hblock =>
      refine Node.fits_iff.2 (List.forall_mem_cons.2 ⟨(Name.fits _).free, ?_⟩)
      rw [List.map_append]
      refine List.forall_mem_append.2 ⟨?_, ?_⟩
      · exact Node.stepFits_map (fun _ => rfl) fun name _ => name.fits.free
      · exact Node.stepFits_map (fun _ => rfl) fun statement hstatement =>
          (hblock.enters hbelow statement hstatement).paid
  | expression _ hslot _ =>
      exact Node.fits_iff.2 (List.forall_mem_singleton.2 (hslot.enters hbelow).paid)

/-- What is derived one level above phrases has one unit of room more. -/
theorem Shallow.above : below.above.Shallow (height + 1) where
  expr h := ⟨height, rfl, IsExpression.fits hbelow h⟩
  statement h := by
    cases h with
    | intro hbody _ => exact ⟨height, rfl, hbody.fits hbelow⟩

omit hbelow in
/-- What is derived of a height has that much room to enter. -/
theorem shallow_ofHeight (height : Nat) : (ofHeight height).Shallow height := by
  induction height with
  | zero => exact ⟨False.elim, False.elim⟩
  | succ height ih => exact ih.above

end Phrases

/-! ## Programs -/

/-- A path is no longer than the limit, and what it comes to fits in the room that is left. -/
theorem Program.Path.le_of_enters {program : Program} {limit depth : Nat} {node : Node}
    (h : program.Path depth node)
    (henters : ∀ statement ∈ program.statements, (Node.statement statement).Enters limit) :
    depth ≤ limit ∧ node.Fits (limit - depth) := by
  induction h with
  | top hmem =>
      obtain ⟨room, rfl, hfits⟩ := henters _ hmem
      exact ⟨Nat.le_add_left 1 room, hfits⟩
  | step _ hstep ih =>
      obtain ⟨hle, hfits⟩ := ih
      obtain ⟨hcost, hbelow⟩ := Node.fits_iff.1 hfits _ hstep
      rw [Nat.sub_sub] at hbelow
      exact ⟨by omega, hbelow⟩

/-- The tree of an accepted text is shallow: a path comes to every node of it, and no path counts
more statements, slots that are read by themselves and steps to the rest of a sequence than the
limit of nesting. -/
theorem Program.path_depth_le {source : String} {program : Program}
    (h : Program.parse source = .ok program) {node : Node} (hnode : program.HasNode node) :
    (∃ depth, program.Path depth node) ∧
      ∀ depth, program.Path depth node → depth ≤ nestingLimit := by
  obtain ⟨_, -, hderives, -⟩ := Program.derives_of_parse h
  have henters := hderives.forall_mem fun _ _ => (Phrases.shallow_ofHeight nestingLimit).statement
  exact ⟨hnode.exists_path, fun _ hpath => (hpath.le_of_enters henters).1⟩

set_option maxRecDepth 4000 in
/-- The statement, the slot in it, the step to the rest of the sequence and the argument count on
the way to the name `c`; the call and the value of the shorthand entry do not. -/
theorem Program.path_depth_le_shorthand :
    ∃ program node, Program.parse "a, b(\x7bc\x7d);" = .ok program ∧ program.HasNode node ∧
      program.Path 4 node ∧ (∃ depth, program.Path depth node) ∧
      ∀ depth, program.Path depth node → depth ≤ nestingLimit := by
  let shared : Name := ⟨"c", ⟨6, 1⟩⟩
  let entry : ObjectField := ⟨.name shared, .bare (.name shared), ⟨6, 1⟩⟩
  let argument : Slot := ⟨.object [entry] ⟨5, 3⟩, ⟨5, 3⟩⟩
  let call : Expr := .call (.name ⟨"b", ⟨3, 1⟩⟩) [argument] ⟨3, 6⟩
  let whole : Slot := ⟨.sequence (.name ⟨"a", ⟨0, 1⟩⟩) call ⟨0, 9⟩, ⟨0, 9⟩⟩
  let program : Program := ⟨[.expression whole], ⟨0, 10⟩⟩
  have hprogram : Program.parse "a, b(\x7bc\x7d);" = .ok program := by cbv
  have hwhole : program.Path (1 + 1 + 0) (.expr whole.body) :=
    .step (.step (.top List.mem_cons_self) List.mem_cons_self) List.mem_cons_self
  have hargument : program.Path (2 + 1 + 1 + 0) (.expr argument.body) :=
    .step (.step (.step hwhole (.tail _ List.mem_cons_self)) (.tail _ List.mem_cons_self))
      List.mem_cons_self
  have hvalue : program.Path (4 + 0 + 0) (.slot entry.value) :=
    .step (.step hargument List.mem_cons_self) (.tail _ List.mem_cons_self)
  have hname : program.Path (4 + 0 + 0) (.name shared) :=
    .step (.step hvalue List.mem_cons_self) List.mem_cons_self
  exact ⟨program, _, hprogram, hname.hasNode, hname,
    Program.path_depth_le hprogram hname.hasNode⟩

end Scriptlet
