import Scriptlet.Proofs.Exactness
import Scriptlet.Proofs.Nodes
import Scriptlet.Proofs.Rebinding
import Scriptlet.Proofs.Spans

/-!
# Where the parts of a tree come from

Every statement of a program, at any depth, is derived from a part of its tokens, and so is every
slot. Other nodes are put together from these; bindings hold neither, and parameters have the slots
of the expressions that they were.
-/

namespace Scriptlet

/-- What a node says of some tokens: a statement and a slot are derived from a part of them. -/
def Node.From (found : List Token) : Node → Prop
  | .statement it => ∃ height part, part <:+: found ∧ (Phrases.ofHeight height).IsBody part it
  | .slot it => ∃ height mode part, part <:+: found ∧ (Phrases.ofHeight height).IsSlot mode part it
  | _ => True

variable {found tokens before after : List Token} {token : Token}

/-! ## Parts of tokens -/

theorem infix_left (h : before ++ after <:+: found) : before <:+: found :=
  (List.prefix_append before after).isInfix.trans h

theorem infix_right (h : before ++ after <:+: found) : after <:+: found :=
  (List.suffix_append before after).isInfix.trans h

theorem infix_tail (h : token :: tokens <:+: found) : tokens <:+: found :=
  (List.suffix_cons token tokens).isInfix.trans h

/-! ## Expressions read again as bindings -/

/-- A name is a leaf. -/
theorem Name.all_from (name : Name) : (Node.name name).All (Node.From found) :=
  .intro (by trivial) (by simp [Node.children])

mutual
/-- A binding holds neither statements nor slots. -/
theorem Binding.all_from : ∀ binding : Binding, (Node.binding binding).All (Node.From found)
  | .name name => .intro (by trivial) (List.forall_mem_singleton.2 name.all_from)
  | .pattern fields _ =>
      .intro (by trivial) (List.forall_mem_map.2 (PatternField.all_from fields))

theorem PatternField.all_from : ∀ fields : List PatternField,
    ∀ field ∈ fields, (Node.patternField field).All (Node.From found)
  | [] => by simp
  | ⟨source, destination, _⟩ :: rest =>
      List.forall_mem_cons.2 ⟨.intro (by trivial) (List.forall_mem_cons.2 ⟨source.all_from,
        List.forall_mem_singleton.2 (Binding.all_from destination)⟩), PatternField.all_from rest⟩
end

/-- What holds of all that is in a sequence holds of all that is in its elements. -/
theorem Expr.all_elements {P : Node → Prop} : ∀ {expr : Expr}, (Node.expr expr).All P →
    ∀ element ∈ expr.elements, (Node.expr element).All P
  | .sequence left right _, h => by
      have hleft := h.children (.expr left) (by simp [Node.children])
      have hright := h.children (.expr right) (by simp [Node.children])
      exact List.forall_mem_cons.2 ⟨hleft, Expr.all_elements hright⟩
  | .name _, h | .string _ _, h | .number _ _, h | .field _ _ _, h | .index _ _ _, h
  | .call _ _ _, h | .object _ _, h | .assign _ _ _, h | .arrow _ _ _, h =>
      List.forall_mem_singleton.2 h

/-- A parameter has the slot of the default value that stands for it. -/
theorem Expr.StandsForParameter.all_from {expr : Expr} {item : Parameter}
    (h : expr.StandsForParameter item) (hexpr : (Node.expr expr).All (Node.From found)) :
    (Node.parameter item).All (Node.From found) := by
  cases h with
  | assign => exact .intro (by trivial) hexpr.children
  | plain => exact .intro (by trivial) (List.forall_mem_singleton.2 (Binding.all_from _))

/-- Parameters have the slots of what they were. -/
theorem Expr.toParameters_from {content : Expr} {span : Span} {parameters : Parameters}
    (h : content.toParameters span = .ok parameters)
    (hcontent : (Node.expr content).All (Node.From found)) :
    (Node.parameters parameters).All (Node.From found) := by
  obtain ⟨-, hitems⟩ := (Expr.toParameters_eq_ok_iff _ _ _).1 h
  exact .intro (by trivial) (List.forall_mem_map.2 (Expr.forall_mem_parameters hitems
    Expr.StandsForParameter.all_from (Expr.all_elements hcontent)))

/-! ## Productions -/

namespace Phrases

/-- All that some phrases derive from parts of the tokens comes from these. -/
structure ComeFrom (phrases : Phrases) (found : List Token) : Prop where
  expr {mode tokens expr} :
    phrases.expr mode tokens expr → tokens <:+: found → (Node.expr expr).All (Node.From found)
  statement {tokens statement} :
    phrases.statement tokens statement → tokens <:+: found →
      (Node.statement statement).All (Node.From found)

/-! ### Lists -/

section

variable {α : Type} {item : List Token → α → Prop} {P : α → Prop} {values : List α}
  (hitem : ∀ tokens value, item tokens value → tokens <:+: found → P value)

include hitem

theorem Series.forall_from (h : Series item tokens values) (hpart : tokens <:+: found) :
    ∀ value ∈ values, P value := by
  induction h with
  | nil => simp
  | cons hvalue _ ih =>
      exact List.forall_mem_cons.2 ⟨hitem _ _ hvalue (infix_left hpart), ih (infix_right hpart)⟩

theorem Listed.forall_from (h : Listed item tokens values) (hpart : tokens <:+: found) :
    ∀ value ∈ values, P value := by
  induction h with
  | last hvalue => exact List.forall_mem_singleton.2 (hitem _ _ hvalue hpart)
  | more hvalue _ _ ih =>
      exact List.forall_mem_cons.2
        ⟨hitem _ _ hvalue (infix_left hpart), ih (infix_tail (infix_right hpart))⟩

theorem Closed.forall_from (h : Closed item tokens values) (hpart : tokens <:+: found) :
    ∀ value ∈ values, P value := by
  cases h with
  | empty => simp
  | filled hlisted _ => exact hlisted.forall_from hitem (infix_left hpart)

end

variable {height : Nat} (hbelow : (ofHeight height).ComeFrom found) {mode : Mode} {start : Nat}
  {node expr : Expr}

include hbelow

/-! ### Slots, blocks and object literals -/

theorem IsSlot.all_from {slot : Slot} (h : (ofHeight height).IsSlot mode tokens slot)
    (hpart : tokens <:+: found) : (Node.slot slot).All (Node.From found) := by
  refine .intro ⟨height, mode, tokens, hpart, h⟩ ?_
  cases h with
  | intro hexpr => exact List.forall_mem_singleton.2 (hbelow.expr hexpr hpart)

theorem IsBlock.all_from {statements : List Statement}
    (h : (ofHeight height).IsBlock tokens statements) (hpart : tokens <:+: found) :
    ∀ statement ∈ statements, (Node.statement statement).All (Node.From found) := by
  cases h with
  | intro _ hseries _ =>
      exact hseries.forall_from (fun _ _ => hbelow.statement) (infix_left (infix_tail hpart))

theorem IsKey.all_from {key : ObjectKey} (h : (ofHeight height).IsKey tokens key)
    (hpart : tokens <:+: found) : (Node.key key).All (Node.From found) := by
  cases h with
  | name => exact .intro (by trivial) (List.forall_mem_singleton.2 (Name.all_from _))
  | string | number => exact .intro (by trivial) (by simp [Node.children])
  | computed _ hslot _ =>
      exact .intro (by trivial) (List.forall_mem_singleton.2
        (hslot.all_from hbelow (infix_left (infix_tail hpart))))

theorem IsField.all_from {field : ObjectField} (h : (ofHeight height).IsField tokens field)
    (hpart : tokens <:+: found) : (Node.field field).All (Node.From found) := by
  cases h with
  | @shorthand token hkind =>
      -- The value of a shorthand field is derived from its only token.
      have hslot : (ofHeight 1).IsSlot .item [token]
          ⟨.name ⟨token.text, token.span⟩, cover [token]⟩ :=
        .intro (IsPrimary.name hkind).isExpression
      rw [cover_singleton] at hslot
      have hvalue : (Node.slot (.bare (.name ⟨token.text, token.span⟩))).From found :=
        ⟨1, .item, [token], hpart, hslot⟩
      exact .intro (by trivial) (List.forall_mem_cons.2
        ⟨.intro (by trivial) (List.forall_mem_singleton.2 (Name.all_from _)),
          List.forall_mem_singleton.2 (.intro hvalue (List.forall_mem_singleton.2
            (.intro (by trivial) (List.forall_mem_singleton.2 (Name.all_from _)))))⟩)
  | entry hkey _ hslot =>
      exact .intro (by trivial) (List.forall_mem_cons.2 ⟨hkey.all_from hbelow (infix_left hpart),
        List.forall_mem_singleton.2 (hslot.all_from hbelow (infix_tail (infix_right hpart)))⟩)

theorem IsFields.all_from {fields : List ObjectField} (h : (ofHeight height).IsFields tokens fields)
    (hpart : tokens <:+: found) : ∀ field ∈ fields, (Node.field field).All (Node.From found) := by
  induction h with
  | nil => simp
  | last hfield => exact List.forall_mem_singleton.2 (hfield.all_from hbelow hpart)
  | more hfield _ _ ih =>
      exact List.forall_mem_cons.2
        ⟨hfield.all_from hbelow (infix_left hpart), ih (infix_tail (infix_right hpart))⟩

theorem IsObject.all_from {literal : Expr} (h : (ofHeight height).IsObject tokens literal)
    (hpart : tokens <:+: found) : (Node.expr literal).All (Node.From found) := by
  cases h with
  | intro _ hfields _ =>
      exact .intro (by trivial) (List.forall_mem_map.2
        (hfields.all_from hbelow (infix_left (infix_tail hpart))))

/-! ### Expressions -/

theorem IsPrimary.all_from (h : (ofHeight height).IsPrimary tokens node)
    (hpart : tokens <:+: found) : (Node.expr node).All (Node.From found) := by
  cases h with
  | name => exact .intro (by trivial) (List.forall_mem_singleton.2 (Name.all_from _))
  | string | number => exact .intro (by trivial) (by simp [Node.children])
  | group _ hcontent _ => exact hbelow.expr hcontent (infix_left (infix_tail hpart))
  | object hobject => exact hobject.all_from hbelow hpart

theorem IsEnd.all_from (h : (ofHeight height).IsEnd mode start node tokens expr)
    (hnode : (Node.expr node).All (Node.From found)) (hpart : tokens <:+: found) :
    (Node.expr expr).All (Node.From found) := by
  cases h with
  | stop => exact hnode
  | comma _ _ hright =>
      exact .intro (by trivial) (List.forall_mem_cons.2
        ⟨hnode, List.forall_mem_singleton.2 (hbelow.expr hright (infix_tail hpart))⟩)

theorem IsLink.all_from {next : Expr} (h : (ofHeight height).IsLink start node tokens next)
    (hnode : (Node.expr node).All (Node.From found)) (hpart : tokens <:+: found) :
    (Node.expr next).All (Node.From found) := by
  cases h with
  | field => exact .intro (by trivial) (List.forall_mem_singleton.2 hnode)
  | index _ hslot _ =>
      exact .intro (by trivial) (List.forall_mem_cons.2 ⟨hnode, List.forall_mem_singleton.2
        (hslot.all_from hbelow (infix_left (infix_tail hpart)))⟩)
  | call _ hclosed =>
      exact .intro (by trivial) (List.forall_mem_cons.2 ⟨hnode, List.forall_mem_map.2
        (hclosed.forall_from (fun _ _ hslot => hslot.all_from hbelow) (infix_tail hpart))⟩)

/-- A default value and what it is for. -/
theorem all_from_assign {target : Binding} {source : Slot} {span : Span}
    (h : (ofHeight height).IsSlot mode tokens source) (hpart : tokens <:+: found) :
    (Node.expr (.assign target source span)).All (Node.From found) :=
  .intro (by trivial) (List.forall_mem_cons.2
    ⟨target.all_from, List.forall_mem_singleton.2 (h.all_from hbelow hpart)⟩)

theorem IsTail.all_from (h : (ofHeight height).IsTail mode start node tokens expr)
    (hnode : (Node.expr node).All (Node.From found)) (hpart : tokens <:+: found) :
    (Node.expr expr).All (Node.From found) := by
  induction h with
  | done hend => exact hend.all_from hbelow hnode hpart
  | link hlink _ ih =>
      exact ih (hlink.all_from hbelow hnode (infix_left hpart)) (infix_right hpart)
  | fallback _ _ hslot hend =>
      have hrest := infix_tail hpart
      exact hend.all_from hbelow (all_from_assign hbelow hslot (infix_left hrest))
        (infix_right hrest)

theorem IsParameters.all_from {parameters : Parameters}
    (h : (ofHeight height).IsParameters tokens parameters) (hpart : tokens <:+: found) :
    (Node.parameters parameters).All (Node.From found) := by
  cases h with
  | empty => exact .intro (by trivial) (by simp [Node.children])
  | group _ hcontent _ hparameters =>
      exact Expr.toParameters_from hparameters
        (hbelow.expr hcontent (infix_left (infix_tail hpart)))

theorem IsExpression.all_from (h : (ofHeight height).IsExpression mode tokens expr)
    (hpart : tokens <:+: found) : (Node.expr expr).All (Node.From found) := by
  cases h with
  | chain hprimary htail =>
      exact htail.all_from hbelow (hprimary.all_from hbelow (infix_left hpart)) (infix_right hpart)
  | unpacking _ _ _ hslot hend =>
      have hrest := infix_tail (infix_right hpart)
      exact hend.all_from hbelow (all_from_assign hbelow hslot (infix_left hrest))
        (infix_right hrest)
  | arrow hparameters _ _ hslot =>
      exact .intro (by trivial) (List.forall_mem_cons.2
        ⟨hparameters.all_from hbelow (infix_left hpart), List.forall_mem_singleton.2
          (hslot.all_from hbelow (infix_tail (infix_right hpart)))⟩)
  | @arrowBlock _ _ _ more statements _ _ hparameters _ hblock htail =>
      have hrest := infix_tail (infix_right hpart)
      have hbody : (Node.block statements (cover more)).All (Node.From found) :=
        .intro (by trivial) (List.forall_mem_map.2 (hblock.all_from hbelow (infix_left hrest)))
      exact htail.all_from hbelow (.intro (by trivial) (List.forall_mem_cons.2
        ⟨hparameters.all_from hbelow (infix_left hpart), List.forall_mem_singleton.2 hbody⟩))
        (infix_right hrest)

/-! ### Statements -/

theorem IsBody.all_from {statement : Statement} (h : (ofHeight height).IsBody tokens statement)
    (hpart : tokens <:+: found) : (Node.statement statement).All (Node.From found) := by
  refine .intro ⟨height, tokens, hpart, h⟩ ?_
  cases h with
  | declaration => exact List.forall_mem_singleton.2 (Name.all_from _)
  | initialized _ _ _ _ hslot _ =>
      exact List.forall_mem_cons.2 ⟨Name.all_from _, List.forall_mem_singleton.2
        (hslot.all_from hbelow (infix_left (infix_tail (infix_right (infix_tail hpart)))))⟩
  | function _ _ _ _ _ hblock =>
      have hbody := hblock.all_from hbelow
        (infix_right (infix_tail (infix_right (infix_tail hpart))))
      exact List.forall_mem_cons.2 ⟨Name.all_from _, List.forall_mem_append.2
        ⟨List.forall_mem_map.2 fun name _ => name.all_from, List.forall_mem_map.2 hbody⟩⟩
  | expression _ hslot _ =>
      exact List.forall_mem_singleton.2 (hslot.all_from hbelow (infix_left hpart))

theorem IsStatement.all_from {statement : Statement}
    (h : (ofHeight height).IsStatement tokens statement) (hpart : tokens <:+: found) :
    (Node.statement statement).All (Node.From found) := by
  cases h with
  | intro hbody _ => exact hbody.all_from hbelow (infix_left hpart)

omit hbelow in
/-- All that is derived comes from its tokens. -/
theorem comeFrom_ofHeight (height : Nat) : (ofHeight height).ComeFrom found := by
  induction height with
  | zero => exact ⟨False.elim, False.elim⟩
  | succ height ih => exact ⟨IsExpression.all_from ih, IsStatement.all_from ih⟩

end Phrases

/-- The nodes of a program come from its tokens. -/
theorem Derives.node_from {height : Nat} {program : Program} {node : Node}
    (h : Derives height found program.statements) (hnode : program.HasNode node) :
    node.From found :=
  hnode.of_all (h.forall_from (fun _ _ => (Phrases.comeFrom_ofHeight height).statement)
    List.infix_rfl)

end Scriptlet
