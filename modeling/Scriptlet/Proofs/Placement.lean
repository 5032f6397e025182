import Mathlib
import Scriptlet.Proofs.Exactness
import Scriptlet.Proofs.Nodes
import Scriptlet.Proofs.Rebinding
import Scriptlet.Proofs.Spans

/-!
# Where the nodes of a tree stand

Every node of a program spans from the start of one token to the stop of another, within the node
above it, and the nodes below a node follow one another. `Node.Placed` says so of a node and the
nodes right below it, and each production of the grammar keeps it: the parts that it puts together
come from parts of its tokens.
-/

namespace Scriptlet

/-! ## Nodes on tokens -/

namespace Node

/-- One node stops before another one starts. -/
def Before (first second : Node) : Prop :=
  first.span.stop ≤ second.span.offset

/-- A node spans some tokens, and the nodes right below it lie within it, one behind the other; the
two parts of a shorthand entry are in the same place. -/
structure Placed (tokens : List Token) (node : Node) : Prop where
  span : node.span.On tokens
  within : ∀ child ∈ node.children, child.span.Within node.span
  inOrder : node.IsShorthand ∨ node.children.Pairwise Before

/-- Nodes one behind the other that are placed on tokens, with all that is below them. -/
structure Row (tokens : List Token) (nodes : List Node) : Prop where
  placed : ∀ node ∈ nodes, node.All (Placed tokens)
  inOrder : nodes.Pairwise Before

variable {tokens more before after : List Token} {node : Node} {nodes : List Node}

theorem Placed.mono (hsub : tokens ⊆ more) (node : Node) (h : Placed tokens node) :
    Placed more node :=
  ⟨h.span.mono hsub, h.within, h.inOrder⟩

theorem All.mono (h : node.All (Placed tokens)) (hsub : tokens ⊆ more) :
    node.All (Placed more) :=
  h.imp (Placed.mono hsub)

namespace Row

theorem nil : Row tokens [] :=
  ⟨by simp, .nil⟩

theorem single (h : node.All (Placed tokens)) : Row tokens [node] :=
  ⟨fun _ hmem => List.mem_singleton.1 hmem ▸ h, List.pairwise_singleton _ _⟩

theorem mono (h : Row tokens nodes) (hsub : tokens ⊆ more) : Row more nodes :=
  ⟨fun node hmem => (h.placed node hmem).mono hsub, h.inOrder⟩

/-- A token more in front. -/
theorem cons (token : Token) (h : Row tokens nodes) : Row (token :: tokens) nodes :=
  h.mono (List.subset_cons_self token tokens)

/-- Tokens more behind. -/
theorem concat (more : List Token) (h : Row tokens nodes) : Row (tokens ++ more) nodes :=
  h.mono (List.subset_append_left tokens more)

/-- Brackets around. -/
theorem bracketed (opening closing : Token) (h : Row tokens nodes) :
    Row (opening :: (tokens ++ [closing])) nodes :=
  (h.concat [closing]).cons opening

/-- Nodes on the parts of some tokens follow one another. -/
theorem append {others : List Node} (h : Row before nodes) (hothers : Row after others)
    (hordered : Ordered (before ++ after)) : Row (before ++ after) (nodes ++ others) := by
  refine ⟨fun node hmem => ?_, List.pairwise_append.2 ⟨h.inOrder, hothers.inOrder, ?_⟩⟩
  · rcases List.mem_append.1 hmem with hmem | hmem
    · exact (h.placed node hmem).mono (List.subset_append_left _ _)
    · exact (hothers.placed node hmem).mono (List.subset_append_right _ _)
  · intro first hfirst second hsecond
    exact (h.placed first hfirst).here.span.stop_le (hothers.placed second hsecond).here.span
      hordered

end Row

/-- What holds one node and has its span is placed where that node is. -/
theorem All.wrap {outer : Node} (h : node.All (Placed tokens)) (hspan : outer.span = node.span)
    (hchildren : outer.children = [node]) : outer.All (Placed tokens) := by
  refine .intro ⟨hspan ▸ h.here.span, ?_, .inr ?_⟩ ?_ <;> rw [hchildren]
  · exact List.forall_mem_singleton.2 ⟨Nat.le_of_eq (congrArg Span.offset hspan),
      Nat.le_of_eq (congrArg Span.stop hspan.symm)⟩
  · exact List.pairwise_singleton _ _
  · exact List.forall_mem_singleton.2 h

/-- Whether nodes are one behind the other is decided by their spans. -/
theorem pairwise_before_iff :
    nodes.Pairwise Before ↔
      (nodes.map Node.span).Pairwise fun first second => first.stop ≤ second.offset :=
  Iff.symm (List.pairwise_map (R := fun first second : Span => first.stop ≤ second.offset))

/-- Nodes with the spans of a row are a row if all of them are placed. -/
theorem Row.of_spans {others : List Node} (h : Row tokens nodes)
    (hspans : others.map Node.span = nodes.map Node.span)
    (hothers : ∀ node ∈ others, node.All (Placed tokens)) : Row tokens others :=
  ⟨hothers, pairwise_before_iff.2 (hspans ▸ pairwise_before_iff.1 h.inOrder)⟩

/-- A node with the spans of another one, which is no shorthand, is placed where that is. -/
theorem Placed.of_spans {other : Node} (h : Placed tokens node) (hspan : other.span = node.span)
    (hchildren : other.children.map Node.span = node.children.map Node.span)
    (hshorthand : ¬ node.IsShorthand) : Placed tokens other := by
  have hinOrder := h.inOrder.resolve_left hshorthand
  refine ⟨hspan ▸ h.span, fun child hchild => ?_,
    .inr (pairwise_before_iff.2 (hchildren ▸ pairwise_before_iff.1 hinOrder))⟩
  have hmem : child.span ∈ node.children.map Node.span := hchildren ▸ List.mem_map_of_mem hchild
  obtain ⟨same, hsame, hsameSpan⟩ := List.mem_map.1 hmem
  rw [← hsameSpan, hspan]
  exact h.within same hsame

/-- A node that covers some tokens is placed on them when the nodes below it are a row on them. -/
theorem Row.placed_above (h : Row tokens node.children) (hspan : node.span = cover tokens)
    (hordered : Ordered tokens) (hne : tokens ≠ []) : node.All (Placed tokens) := by
  refine .intro ⟨?_, fun child hchild => ?_, .inr h.inOrder⟩ h.placed
  · rw [hspan]
    exact .cover hordered hne
  · rw [hspan]
    exact (h.placed child hchild).here.span.within_cover hordered

end Node

/-! ## Expressions read again as bindings -/

section

variable {tokens : List Token}

theorem forall_mem_pair {α : Type} {P : α → Prop} {first second : α} :
    (∀ item ∈ [first, second], P item) ↔ P first ∧ P second := by
  simp

mutual
/-- A binding is placed where the expression is that stands for it. -/
theorem Expr.StandsFor.placed : ∀ {expr : Expr} {binding : Binding}, expr.StandsFor binding →
    (Node.expr expr).All (Node.Placed tokens) →
      binding.span = expr.span ∧ (Node.binding binding).All (Node.Placed tokens)
  | _, _, .name, hexpr => ⟨rfl, .intro (hexpr.here.of_spans rfl rfl id) hexpr.children⟩
  | _, _, .object hitems, hexpr => by
      obtain ⟨hspans, hplaced⟩ :=
        ObjectField.StandsFor.placed hitems (List.forall_mem_map.1 hexpr.children)
      refine ⟨rfl, .intro (hexpr.here.of_spans rfl ?_ id) (List.forall_mem_map.2 hplaced)⟩
      simpa [Node.children, Function.comp_def, Node.span] using hspans

/-- The fields of a pattern are placed where the fields are that stand for them. -/
theorem ObjectField.StandsFor.placed : ∀ {fields : List ObjectField} {items : List PatternField},
    List.Forall₂ ObjectField.StandsFor fields items →
      (∀ field ∈ fields, (Node.field field).All (Node.Placed tokens)) →
        items.map PatternField.span = fields.map ObjectField.span ∧
          ∀ item ∈ items, (Node.patternField item).All (Node.Placed tokens)
  | _, _, .nil, _ => ⟨rfl, List.forall_mem_nil _⟩
  | _, _, .cons (@ObjectField.StandsFor.intro source value destination outer span hvalue) hitems,
      hfields => by
      obtain ⟨hfield, hrest⟩ := List.forall_mem_cons.1 hfields
      obtain ⟨hspans, hplaced⟩ := ObjectField.StandsFor.placed hitems hrest
      obtain ⟨hkey, hslot⟩ := forall_mem_pair.1 hfield.children
      obtain ⟨hkeyWithin, hslotWithin⟩ := forall_mem_pair.1 hfield.here.within
      have hbody := hslot.children _ (List.mem_singleton.2 rfl)
      have hbodyWithin := hslot.here.within _ (List.mem_singleton.2 rfl)
      obtain ⟨hspan, hbinding⟩ := Expr.StandsFor.placed hvalue hbody
      refine ⟨by rw [List.map_cons, List.map_cons, hspans], List.forall_mem_cons.2 ⟨.intro
        ⟨hfield.here.span, forall_mem_pair.2 ⟨hkeyWithin, ?_⟩, ?_⟩
        (forall_mem_pair.2 ⟨hkey.children _ (List.mem_singleton.2 rfl), hbinding⟩), hplaced⟩⟩
      · show destination.span.Within span
        rw [hspan]
        exact hbodyWithin.trans hslotWithin
      · rcases hfield.here.inOrder with ⟨name, hname, hshared⟩ | hinOrder
        · -- The value of a shorthand field is its key, so it binds that name.
          cases hname
          cases hshared
          cases hvalue
          exact .inl rfl
        · have hbefore : Node.Before (.key (.name source)) (.slot ⟨value, outer⟩) :=
            List.pairwise_pair.1 hinOrder
          refine .inr (List.pairwise_pair.2 ?_)
          show source.span.stop ≤ destination.span.offset
          rw [hspan]
          exact Nat.le_trans hbefore hbodyWithin.offset
end

/-- The elements of a sequence are a row within it. -/
theorem Expr.row_elements : ∀ {expr : Expr}, (Node.expr expr).All (Node.Placed tokens) →
    Node.Row tokens (expr.elements.map .expr) ∧
      ∀ element ∈ expr.elements, element.span.Within expr.span
  | .sequence left right span, h => by
      obtain ⟨hleft, hright⟩ := forall_mem_pair.1 h.children
      obtain ⟨hleftWithin, hrightWithin⟩ := forall_mem_pair.1 h.here.within
      have hbefore : Node.Before (.expr left) (.expr right) :=
        List.pairwise_pair.1 (h.here.inOrder.resolve_left id)
      obtain ⟨hrow, hwithin⟩ := Expr.row_elements hright
      refine ⟨⟨List.forall_mem_cons.2 ⟨hleft, hrow.placed⟩,
        List.pairwise_cons.2 ⟨?_, hrow.inOrder⟩⟩,
        List.forall_mem_cons.2 ⟨hleftWithin, fun element hmem =>
          (hwithin element hmem).trans hrightWithin⟩⟩
      refine List.forall_mem_map.2 fun element hmem => ?_
      exact Nat.le_trans hbefore (hwithin element hmem).offset
  | .name _, h | .string _ _, h | .number _ _, h | .field _ _ _, h | .index _ _ _, h
  | .call _ _ _, h | .object _ _, h | .assign _ _ _, h | .arrow _ _ _, h =>
      ⟨.single h, fun _ hmem => List.mem_singleton.1 hmem ▸ ⟨Nat.le_refl _, Nat.le_refl _⟩⟩

/-- A parameter is placed where the expression is that stands for it. -/
theorem Expr.StandsForParameter.placed {expr : Expr} {item : Parameter}
    (h : expr.StandsForParameter item) (hexpr : (Node.expr expr).All (Node.Placed tokens)) :
    item.span = expr.span ∧ (Node.parameter item).All (Node.Placed tokens) := by
  cases h with
  | assign => exact ⟨rfl, .intro (hexpr.here.of_spans rfl rfl id) hexpr.children⟩
  | plain hbinding =>
      obtain ⟨hspan, hplaced⟩ := hbinding.placed hexpr
      exact ⟨rfl, hplaced.wrap hspan.symm rfl⟩

/-- The parameters that a row of expressions stand for have their spans. -/
theorem Expr.map_span_parameters {elements : List Expr} {items : List Parameter}
    (h : List.Forall₂ Expr.StandsForParameter elements items)
    (hplaced : ∀ element ∈ elements, (Node.expr element).All (Node.Placed tokens)) :
    items.map Parameter.span = elements.map Expr.span := by
  induction h with
  | nil => rfl
  | cons hitem _ ih =>
      obtain ⟨helement, helements⟩ := List.forall_mem_cons.1 hplaced
      rw [List.map_cons, List.map_cons, (hitem.placed helement).1, ih helements]

/-- The parameters that the content of a group stands for are a row. -/
theorem Expr.toParameters_row {content : Expr} {span : Span} {parameters : Parameters}
    (h : content.toParameters span = .ok parameters)
    (hcontent : (Node.expr content).All (Node.Placed tokens)) :
    parameters.span = span ∧ Node.Row tokens (parameters.items.map .parameter) := by
  obtain ⟨hspan, hitems⟩ := (Expr.toParameters_eq_ok_iff _ _ _).1 h
  obtain ⟨hrow, -⟩ := Expr.row_elements hcontent
  have helements := List.forall_mem_map.1 hrow.placed
  have hspans := Expr.map_span_parameters hitems helements
  have hplaced := Expr.forall_mem_parameters hitems
    (fun hstands helement => (hstands.placed helement).2) helements
  refine ⟨hspan, hrow.of_spans ?_ (List.forall_mem_map.2 hplaced)⟩
  simpa [Function.comp_def, Node.span] using hspans

end

/-! ## Productions -/

/-- Whatever some phrases derive is placed on the tokens that it is derived from. -/
structure Phrases.Places (phrases : Phrases) : Prop where
  expr {mode tokens expr} :
    phrases.expr mode tokens expr → Ordered tokens → (Node.expr expr).All (Node.Placed tokens)
  statement {tokens statement} :
    phrases.statement tokens statement → Ordered tokens →
      (Node.statement statement).All (Node.Placed tokens)

namespace Phrases

open Node

variable {tokens before : List Token} {mode : Mode} {start : Nat} {node expr : Expr}

/-! ### Lists -/

section

variable {α : Type} {item : List Token → α → Prop} {values : List α} (toNode : α → Node)
  (hitem : ∀ tokens value, item tokens value → Ordered tokens → (toNode value).All (Placed tokens))

include hitem

theorem Series.row (h : Series item tokens values) (hordered : Ordered tokens) :
    Row tokens (values.map toNode) := by
  induction h with
  | nil => exact .nil
  | cons hvalue _ ih =>
      exact Row.append (.single (hitem _ _ hvalue hordered.left)) (ih hordered.right) hordered

theorem Listed.row (h : Listed item tokens values) (hordered : Ordered tokens) :
    Row tokens (values.map toNode) := by
  induction h with
  | last hvalue => exact .single (hitem _ _ hvalue hordered)
  | more hvalue _ _ ih =>
      exact Row.append (.single (hitem _ _ hvalue hordered.left)) (.cons _ (ih hordered.right.tail))
        hordered

theorem Closed.row (h : Closed item tokens values) (hordered : Ordered tokens) :
    Row tokens (values.map toNode) := by
  cases h with
  | empty => exact .nil
  | filled hlisted _ => exact (hlisted.row toNode hitem hordered.left).concat _

end

/-! ### Tokens -/

/-- A token that is a node by itself. -/
theorem placed_token {token : Token} {node : Node} (hspan : node.span = token.span)
    (hleaf : node.children = []) (hordered : Ordered [token]) : node.All (Placed [token]) :=
  Row.placed_above (hleaf ▸ .nil) (hspan.trans (cover_singleton token).symm) hordered
    (List.cons_ne_nil _ _)

theorem placed_name {token : Token} (hordered : Ordered [token]) :
    (Node.name ⟨token.text, token.span⟩).All (Placed [token]) :=
  placed_token rfl rfl hordered

theorem placed_nameExpr {token : Token} (hordered : Ordered [token]) :
    (Node.expr (.name ⟨token.text, token.span⟩)).All (Placed [token]) :=
  (placed_name hordered).wrap rfl rfl

theorem IsName.placed {name : Name} (h : IsName tokens name) (hordered : Ordered tokens) :
    (Node.name name).All (Placed tokens) := by
  cases h with
  | intro => exact placed_name hordered

variable {below : Phrases} (hplaces : below.Places) (hopens : below.Opens)

include hplaces hopens

/-! ### Slots, blocks and object literals -/

theorem IsSlot.placed {slot : Slot} (h : below.IsSlot mode tokens slot)
    (hordered : Ordered tokens) : (Node.slot slot).All (Placed tokens) := by
  cases h with
  | intro hexpr =>
      exact Row.placed_above (.single (hplaces.expr hexpr hordered)) rfl hordered
        (hopens.expr hexpr).ne_nil

omit hopens in
theorem IsBlock.placed {statements : List Statement} (h : below.IsBlock tokens statements)
    (hordered : Ordered tokens) : (Node.block statements (cover tokens)).All (Placed tokens) := by
  cases h with
  | intro _ hseries _ =>
      have hrow := hseries.row .statement (fun _ _ => hplaces.statement) hordered.tail.left
      exact (hrow.bracketed _ _).placed_above rfl hordered (List.cons_ne_nil _ _)

theorem IsKey.placed {key : ObjectKey} (h : below.IsKey tokens key) (hordered : Ordered tokens) :
    (Node.key key).All (Placed tokens) := by
  cases h with
  | name => exact (placed_name hordered).wrap rfl rfl
  | string | number => exact placed_token rfl rfl hordered
  | computed _ hslot _ =>
      have hrow := Row.single (hslot.placed hplaces hopens hordered.tail.left)
      exact ((hrow.bracketed _ _).placed _ (List.mem_singleton.2 rfl)).wrap rfl rfl

theorem IsField.placed {field : ObjectField} (h : below.IsField tokens field)
    (hordered : Ordered tokens) : (Node.field field).All (Placed tokens) := by
  cases h with
  | @shorthand token _ =>
      have hspan := cover_singleton token
      have hname := placed_name hordered
      have hvalue : (Node.slot (.bare (.name ⟨token.text, token.span⟩))).All (Placed [token]) :=
        (placed_nameExpr hordered).wrap rfl rfl
      have hwithin : token.span.Within (cover [token]) :=
        hspan ▸ ⟨Nat.le_refl _, Nat.le_refl _⟩
      exact .intro ⟨hspan ▸ hname.here.span, forall_mem_pair.2 ⟨hwithin, hwithin⟩,
        .inl ⟨_, rfl, rfl⟩⟩ (forall_mem_pair.2 ⟨hname.wrap rfl rfl, hvalue⟩)
  | entry hkey _ hslot =>
      have hrow := Row.append (.single (hkey.placed hplaces hopens hordered.left))
        ((Row.single (hslot.placed hplaces hopens hordered.right.tail)).cons _) hordered
      exact hrow.placed_above rfl hordered (by simp)

theorem IsFields.row {fields : List ObjectField} (h : below.IsFields tokens fields)
    (hordered : Ordered tokens) : Row tokens (fields.map .field) := by
  induction h with
  | nil => exact .nil
  | last hfield => exact .single (hfield.placed hplaces hopens hordered)
  | more hfield _ _ ih =>
      exact Row.append (.single (hfield.placed hplaces hopens hordered.left))
        (.cons _ (ih hordered.right.tail)) hordered

theorem IsObject.placed {literal : Expr} (h : below.IsObject tokens literal)
    (hordered : Ordered tokens) : (Node.expr literal).All (Placed tokens) := by
  cases h with
  | intro _ hfields _ =>
      have hrow := hfields.row hplaces hopens hordered.tail.left
      exact (hrow.bracketed _ _).placed_above rfl hordered (List.cons_ne_nil _ _)

/-! ### Expressions -/

theorem IsPrimary.placed (h : below.IsPrimary tokens node) (hordered : Ordered tokens) :
    (Node.expr node).All (Placed tokens) := by
  cases h with
  | name => exact placed_nameExpr hordered
  | string | number => exact placed_token rfl rfl hordered
  | group _ hcontent _ =>
      have hrow := Row.single (hplaces.expr hcontent hordered.tail.left)
      exact (hrow.bracketed _ _).placed _ (List.mem_singleton.2 rfl)
  | object hobject => exact hobject.placed hplaces hopens hordered

/-- The rest of a sequence is placed behind what it goes on from. -/
theorem IsEnd.placed (h : below.IsEnd mode (startOf before) node tokens expr) (hne : before ≠ [])
    (hnode : (Node.expr node).All (Placed before)) (hordered : Ordered (before ++ tokens)) :
    (Node.expr expr).All (Placed (before ++ tokens)) := by
  cases h with
  | stop => exact hnode.mono (List.subset_append_left _ _)
  | @comma comma tokens right _ _ hright =>
      have hrow := Row.append (.single hnode)
        ((Row.single (hplaces.expr hright hordered.right.tail)).cons comma) hordered
      refine hrow.placed_above ?_ hordered (by simp)
      rw [cover_append hne (List.cons_ne_nil _ _)]
      exact congrArg (Span.between _) (stopOf_append [comma] (hopens.expr hright).ne_nil).symm

/-- An access or a call is placed on what it is applied to and on its own tokens. -/
theorem IsLink.placed {next : Expr} (h : below.IsLink (startOf before) node tokens next)
    (hne : before ≠ []) (hnode : (Node.expr node).All (Placed before))
    (hordered : Ordered (before ++ tokens)) : (Node.expr next).All (Placed (before ++ tokens)) := by
  have hspan := cover_append hne h.ne_nil
  cases h with
  | field =>
      exact ((Row.single hnode).concat _).placed_above hspan.symm hordered (by simp)
  | @index bracket inner slot close _ hslot _ =>
      have hindex := Row.single (hslot.placed hplaces hopens hordered.right.tail.left)
      have hrow := Row.append (.single hnode) (hindex.bracketed bracket close) hordered
      refine hrow.placed_above ?_ hordered (by simp)
      rw [hspan, stopOf_cons_append_cons]
      rfl
  | @call bracket inner arguments _ hclosed =>
      have harguments := hclosed.row .slot (fun _ _ hslot => hslot.placed hplaces hopens)
        hordered.right.tail
      have hrow := Row.append (.single hnode) (harguments.cons bracket) hordered
      refine hrow.placed_above ?_ hordered (by simp)
      rw [hspan]
      exact congrArg (Span.between _) (stopOf_append [bracket] hclosed.ne_nil).symm

/-- The rest of an expression is placed behind what it goes on from. -/
theorem IsTail.placed (h : below.IsTail mode (startOf before) node tokens expr) (hne : before ≠ [])
    (hnode : (Node.expr node).All (Placed before)) (hordered : Ordered (before ++ tokens)) :
    (Node.expr expr).All (Placed (before ++ tokens)) := by
  generalize hstart : startOf before = start at h
  induction h generalizing before with
  | done hend =>
      subst hstart
      exact hend.placed hplaces hopens hne hnode hordered
  | @link node tokens next more expr hlink _ ih =>
      subst hstart
      rw [← List.append_assoc] at hordered ⊢
      exact ih (by simp [hne]) (hlink.placed hplaces hopens hne hnode hordered.left) hordered
        (startOf_append tokens hne)
  | @fallback name assign tokens source more expr _ _ hslot hend =>
      subst hstart
      have hsplit :
          before ++ assign :: (tokens ++ more) = (before ++ assign :: tokens) ++ more := by
        simp
      rw [hsplit] at hordered ⊢
      have hbinding : (Node.binding (.name name)).All (Placed before) :=
        (hnode.children _ (List.mem_singleton.2 rfl)).wrap rfl rfl
      have hsource := Row.single (hslot.placed hplaces hopens hordered.left.right.tail)
      have hrow := Row.append (.single hbinding) (hsource.cons assign) hordered.left
      have hspan : Span.between (startOf before) (stopOf tokens) =
          cover (before ++ assign :: tokens) := by
        rw [cover_append hne (List.cons_ne_nil _ _)]
        exact congrArg (Span.between _) (stopOf_append [assign] (hslot.opening hopens).ne_nil).symm
      have hassign : (Node.expr (.assign (.name name) source (.between (startOf before)
          (stopOf tokens)))).All (Placed (before ++ assign :: tokens)) :=
        hrow.placed_above hspan hordered.left (by simp)
      rw [← startOf_append (assign :: tokens) hne] at hend hassign
      exact hend.placed hplaces hopens (by simp) hassign hordered

/-! ### Arrow functions -/

omit hopens in
theorem IsParameters.placed {parameters : Parameters} (h : below.IsParameters tokens parameters)
    (hordered : Ordered tokens) : (Node.parameters parameters).All (Placed tokens) := by
  cases h with
  | empty => exact Row.placed_above .nil rfl hordered (List.cons_ne_nil _ _)
  | group _ hcontent _ hparameters =>
      obtain ⟨hspan, hrow⟩ :=
        Expr.toParameters_row hparameters (hplaces.expr hcontent hordered.tail.left)
      exact (hrow.bracketed _ _).placed_above hspan hordered (List.cons_ne_nil _ _)

omit hopens in
/-- An arrow function is placed on its parameters and on what stands behind the arrow. -/
theorem placed_arrow {parameters : Parameters} {body : ArrowBody} {arrow : Token}
    {more : List Token} (h : below.IsParameters tokens parameters)
    (hbody : body.node.All (Placed more)) (hne : more ≠ [])
    (hordered : Ordered (tokens ++ arrow :: more)) :
    (Node.expr (.arrow parameters body (.between (startOf tokens) (stopOf more)))).All
      (Placed (tokens ++ arrow :: more)) := by
  have hrow := Row.append (.single (h.placed hplaces hordered.left))
    ((Row.single hbody).cons arrow) hordered
  refine hrow.placed_above ?_ hordered (by simp)
  rw [cover_append h.opening.ne_nil (List.cons_ne_nil _ _)]
  exact congrArg (Span.between _) (stopOf_append [arrow] hne).symm

theorem IsExpression.placed (h : below.IsExpression mode tokens expr) (hordered : Ordered tokens) :
    (Node.expr expr).All (Placed tokens) := by
  cases h with
  | chain hprimary htail =>
      exact htail.placed hplaces hopens hprimary.opening.ne_nil
        (hprimary.placed hplaces hopens hordered.left) hordered
  | @unpacking tokens literal target assign more source rest expr hobject htarget _ hslot hend =>
      have hne := hobject.opening.ne_nil
      rw [← List.cons_append, ← List.append_assoc] at hordered ⊢
      obtain ⟨-, hbinding⟩ := ((Expr.toBinding_eq_ok_iff _ _).1 htarget).placed
        (hobject.placed hplaces hopens hordered.left.left)
      have hsource := Row.single (hslot.placed hplaces hopens hordered.left.right.tail)
      have hrow := Row.append (.single hbinding) (hsource.cons assign) hordered.left
      have hspan : Span.between (startOf tokens) (stopOf more) =
          cover (tokens ++ assign :: more) := by
        rw [cover_append hne (List.cons_ne_nil _ _)]
        exact congrArg (Span.between _) (stopOf_append [assign] (hslot.opening hopens).ne_nil).symm
      have hassign : (Node.expr (.assign target source (.between (startOf tokens)
          (stopOf more)))).All (Placed (tokens ++ assign :: more)) :=
        hrow.placed_above hspan hordered.left (by simp)
      rw [← startOf_append (assign :: more) hne] at hend hassign
      exact hend.placed hplaces hopens (by simp) hassign hordered
  | arrow hparameters _ _ hslot =>
      exact placed_arrow hplaces hparameters
        (hslot.placed hplaces hopens hordered.right.tail) (hslot.opening hopens).ne_nil hordered
  | @arrowBlock tokens parameters arrow more statements rest expr hparameters _ hblock htail =>
      have hne := hparameters.opening.ne_nil
      rw [← List.cons_append, ← List.append_assoc] at hordered ⊢
      have hbody : (ArrowBody.block statements (cover more)).node.All (Placed more) :=
        hblock.placed hplaces hordered.left.right.tail
      have hmore : more ≠ [] := by
        cases hblock
        exact List.cons_ne_nil _ _
      have harrow := placed_arrow hplaces hparameters hbody hmore hordered.left
      rw [← startOf_append (arrow :: more) hne] at htail harrow
      exact htail.placed hplaces hopens (by simp) harrow hordered

/-! ### Statements -/

theorem IsBody.placed {statement : Statement} (h : below.IsBody tokens statement)
    (hordered : Ordered tokens) : (Node.statement statement).All (Placed tokens) := by
  cases h with
  | declaration _ _ _ hname _ =>
      have hrow := Row.single (hname.placed hordered.tail.left)
      exact (hrow.bracketed _ _).placed_above rfl hordered (List.cons_ne_nil _ _)
  | @initialized keyword _ name _ assign more value semicolon _ _ hname _ hslot _ =>
      have hslotRow := Row.single (hslot.placed hplaces hopens hordered.tail.right.tail.left)
      have hrow := Row.append (.single (hname.placed hordered.tail.left))
        (hslotRow.bracketed assign semicolon) hordered.tail
      exact (hrow.cons _).placed_above rfl hordered (List.cons_ne_nil _ _)
  | @function keyword name _ bracket more parameters block statements _ _ hname _ hclosed hblock =>
      have hinner := hordered.tail.right.tail
      have hparameters := hclosed.row .name (fun _ _ => IsName.placed) hinner.left
      have hbody : Row block (statements.map .statement) :=
        ⟨(hblock.placed hplaces hinner.right).children,
          (hblock.placed hplaces hinner.right).here.inOrder.resolve_left id⟩
      have hrow := Row.append (.single (hname.placed hordered.tail.left))
        ((Row.append hparameters hbody hinner).cons bracket) hordered.tail
      exact (hrow.cons _).placed_above rfl hordered (List.cons_ne_nil _ _)
  | expression _ hslot _ =>
      have hstatement : (Node.statement (.expression _)).All (Placed _) :=
        (hslot.placed hplaces hopens hordered.left).wrap rfl rfl
      exact hstatement.mono (List.subset_append_left _ _)

theorem IsStatement.placed {statement : Statement} (h : below.IsStatement tokens statement)
    (hordered : Ordered tokens) : (Node.statement statement).All (Placed tokens) := by
  cases h with
  | intro hbody _ =>
      exact (hbody.placed hplaces hopens hordered.left).mono (List.subset_append_left _ _)

omit hplaces hopens in
/-- Whatever is derived is placed on its tokens. -/
theorem places_ofHeight (height : Nat) : (ofHeight height).Places := by
  induction height with
  | zero => exact ⟨False.elim, False.elim⟩
  | succ height ih =>
      exact ⟨fun h => IsExpression.placed ih (opens_ofHeight height) h,
        fun h => IsStatement.placed ih (opens_ofHeight height) h⟩

end Phrases

/-! ## Programs -/

/-- The spans of a program form a tree. Its statements follow one another in the text; and every
node spans from the start of one token to the stop of another, holds the nodes right below it, and
has these one behind the other, but for shorthand entries, whose two parts are in one place. -/
theorem Program.nodes_placed {source : String} {program : Program}
    (h : Program.parse source = .ok program) :
    ∃ found, tokens source = .ok found ∧
      (∀ statement ∈ program.statements, statement.span.Within program.span) ∧
      (program.statements.map Node.statement).Pairwise Node.Before ∧
      ∀ node, program.HasNode node → node.Placed found := by
  obtain ⟨found, hfound, hderives, hspan⟩ := Program.derives_of_parse h
  obtain ⟨there, hreads, hended⟩ := Reads.start_tokens_eq_ok_iff.1 (tokens_eq_ok_iff.1 hfound)
  have hrow : Node.Row found (program.statements.map .statement) :=
    Phrases.Series.row .statement (fun _ _ => (Phrases.places_ofHeight nestingLimit).statement)
      hderives hreads.ordered.1
  have hplaced := List.forall_mem_map.1 hrow.placed
  refine ⟨found, hfound, fun statement hmem => ?_, hrow.inOrder, fun node hnode =>
    hnode.of_all hplaced⟩
  -- Every token stops before the end of the text.
  obtain ⟨last, hlast, hstop⟩ := (hplaced statement hmem).here.span.stops
  have hend := hended.offset_eq (hreads.in (Cursor.start_in source.toList))
  have hle := hreads.stop_le last hlast
  have hsame : statement.span.stop = last.span.stop := hstop
  rw [hspan]
  refine ⟨Nat.zero_le _, ?_⟩
  show statement.span.stop ≤ 0 + source.toList.length
  omega

set_option maxRecDepth 4000 in
/-- The nodes of an arrow function that takes an object apart form a tree. -/
theorem Program.nodes_placed_pattern :
    ∃ program, Program.parse "({a}) => a.b;" = .ok program ∧
      ∃ found, tokens "({a}) => a.b;" = .ok found ∧
        (∀ statement ∈ program.statements, statement.span.Within program.span) ∧
        (program.statements.map Node.statement).Pairwise Node.Before ∧
        ∀ node, program.HasNode node → node.Placed found := by
  have hprogram : Program.parse "({a}) => a.b;" =
      .ok ⟨[.expression ⟨.arrow
        ⟨[⟨.pattern [⟨⟨"a", ⟨2, 1⟩⟩, .name ⟨"a", ⟨2, 1⟩⟩, ⟨2, 1⟩⟩] ⟨1, 3⟩, none, ⟨1, 3⟩⟩], ⟨0, 5⟩⟩
        (.expression ⟨.field (.name ⟨"a", ⟨9, 1⟩⟩) "b" ⟨9, 3⟩, ⟨9, 3⟩⟩) ⟨0, 12⟩, ⟨0, 12⟩⟩],
        ⟨0, 13⟩⟩ := by cbv
  exact ⟨_, hprogram, Program.nodes_placed hprogram⟩

end Scriptlet
