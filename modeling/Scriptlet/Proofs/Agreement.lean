import Scriptlet.Proofs.Progress
import Scriptlet.Proofs.Simulation
import Scriptlet.Parse.Program

/-!
# Two runs of the grammar

Under a lawful simulation, two levels whose inner levels agree agree themselves: each part of the
grammar makes the same decisions in both runs and builds alike trees. `levels_ofHeight` says so of
levels of one height, and `agrees_statements` of two runs over whole texts.
-/

namespace Scriptlet

open Scriptlet.Parser

/-- Two levels that go alike from related states. -/
structure Simulation.Levels (sim : Simulation) (below below' : Level) : Prop where
  expr {mode left right} :
    sim.state left right →
      sim.Agrees (Expr.Alike sim.span) (below.expr mode left) (below'.expr mode right)
  statement {left right} :
    sim.state left right →
      sim.Agrees (Statement.Alike sim.span) (below.statement left) (below'.statement right)

namespace Simulation

variable {sim : Simulation} {left right : ParseState} {start start' : Nat} {mode : Mode}

section

variable (h : sim.Lawful) (hstate : sim.state left right)

include h hstate

/-! ## Operations that look no further -/

/-- What follows alike results ends as it does with the values, or both runs fail. -/
theorem agrees_bind_rebound {α β : Type} {value : α → α → Prop} {result : β → β → Prop}
    {bound bound' : Except Violation α} {rest rest' : α → Parser β}
    (hbound : Except.Alike sim.span value bound bound')
    (hrest : ∀ {found found'}, value found found' →
      sim.Agrees result (rest found left) (rest' found' right)) :
    sim.Agrees result ((Level.rebound bound >>= rest) left)
      ((Level.rebound bound' >>= rest') right) := by
  cases hbound with
  | ok hvalue => exact hrest hvalue
  | error hspan => exact .error (h.refused (.notRebindable _) (h.span_offset hspan)) hstate

theorem agrees_shorthand? {key key' : ObjectKey} (hkey : key.Alike sim.span key') :
    sim.Agrees (Option.Rel (Slot.Alike sim.span)) (Level.shorthand? key left)
      (Level.shorthand? key' right) := by
  cases hkey with
  | name hname =>
      refine .bind_peek h hstate fun {token other} hnext => ?_
      have hbare := Slot.Alike.bare (.name hname)
      rw [← hnext.alike.kind]
      cases token.kind with
      | comma | closeCurly => exact .pure (.some hbare) hstate
      | _ => exact .pure .none hstate
  | string | number | computed => exact .pure .none hstate

theorem agrees_declaredName (expectation : Expectation) :
    sim.Agrees (Name.Alike sim.span) (Level.declaredName expectation left)
      (Level.declaredName expectation right) := by
  refine .bind (.next h hstate) fun {token other _ _} htoken hstate => ?_
  rw [← htoken.kind, ← htoken.text]
  by_cases hkind : token.kind = .word
  · rw [if_pos hkind, if_pos hkind]
    by_cases hreserved : Spelling.isReserved token.text = true
    · rw [if_pos hreserved, if_pos hreserved]
      exact .fail h hstate (.reservedName _) (h.span_offset htoken.span)
    · rw [if_neg hreserved, if_neg hreserved]
      exact .pure (.intro htoken.span) hstate
  · rw [if_neg hkind, if_neg hkind]
    exact .unexpected h hstate expectation htoken

end

variable (h : sim.Lawful) {below below' : Level} (hlevels : sim.Levels below below')
  (hbelow : below.Grammatical) (hbelow' : below'.Grammatical)

include h hlevels

/-! ## Slots and blocks -/

theorem agrees_slot (hstate : sim.state left right) :
    sim.Agrees (Slot.Alike sim.span) (below.slot mode left) (below'.slot mode right) :=
  .bind_offset h hstate fun hstart => .bind (hlevels.expr hstate) fun hbody hstate =>
    .bind_spanFrom h hstate hstart fun hspan => .intro hbody hspan

include hbelow hbelow'

theorem agrees_block (hstate : sim.state left right) :
    sim.Agrees (fun block other => List.Forall₂ (Statement.Alike sim.span) block.1 other.1 ∧
      sim.span block.2 other.2) (below.block left) (below'.block right) := by
  refine .bind (.expect h hstate _ _) fun hbrace hstate => ?_
  refine .bind (.many hbelow.length_lt_of_blockStatement? hbelow'.length_lt_of_blockStatement?
    (fun hstate => ?_) hstate) fun hstatements hstate =>
      .bind_spanFrom h hstate (h.span_offset hbrace.span) fun hspan => ⟨hstatements, hspan⟩
  refine .bind (.next? h hstate _) fun hclose hstate => ?_
  cases hclose with
  | some _ => exact .pure .none hstate
  | none =>
      exact .bind (hlevels.statement hstate) fun hstatement hstate =>
        .pure (.some hstatement) hstate

/-! ## Chains -/

theorem agrees_arguments (hstate : sim.state left right) :
    sim.Agrees (List.Forall₂ (Slot.Alike sim.span)) (below.arguments left)
      (below'.arguments right) :=
  .separated h _ hbelow.length_le_of_slot hbelow'.length_le_of_slot (agrees_slot h hlevels) hstate

theorem agrees_link {node node' : Expr} (hstart : sim.start start start')
    (hnode : node.Alike sim.span node') (hstate : sim.state left right) :
    sim.Agrees (Rounds (Expr.Alike sim.span) (Expr.Alike sim.span))
      (below.link start mode node left) (below'.link start' mode node' right) := by
  refine .bind_peek? h hstate (fun _ => .pure (.done hnode) hstate) fun {token other} hnext => ?_
  have hunexpected (expectation : Expectation) :
      sim.Agrees (Rounds (Expr.Alike sim.span) (Expr.Alike sim.span))
        ((unexpected expectation token : Parser (Round Expr Expr)) left)
        ((unexpected expectation other : Parser (Round Expr Expr)) right) :=
    .unexpected h hstate expectation hnext.alike
  -- Both runs branch on the kind of the next token, which is the same.
  dsimp only
  rw [← hnext.alike.kind]
  cases token.kind with
  | semicolon | closeRound | closeSquare | closeCurly => exact .pure (.done hnode) hstate
  | comma =>
      dsimp only
      by_cases hstop : mode.stopAtComma = true
      · rw [if_pos hstop, if_pos hstop]
        exact .pure (.done hnode) hstate
      · rw [if_neg hstop, if_neg hstop]
        exact .bind_take hnext fun hstate => .bind (hlevels.expr hstate) fun hright hstate =>
          .bind_spanFrom h hstate hstart fun hspan => .done (.sequence hnode hright hspan)
  | field =>
      refine .bind_take hnext fun hstate => .bind_spanFrom h hstate hstart fun hspan => ?_
      rw [hnext.alike.text]
      exact .again (.field hnode hspan)
  | openSquare =>
      exact .bind_take hnext fun hstate => .bind (agrees_slot h hlevels hstate) fun hindex hstate =>
        .bind (.expect h hstate _ _) fun _ hstate =>
          .bind_spanFrom h hstate hstart fun hspan => .again (.index hnode hindex hspan)
  | openRound =>
      exact .bind_take hnext fun hstate =>
        .bind (agrees_arguments h hlevels hbelow hbelow' hstate) fun harguments hstate =>
          .bind_spanFrom h hstate hstart fun hspan => .again (.call hnode harguments hspan)
  | assign =>
      dsimp only
      by_cases hdefault : mode.allowDefault = true
      · rw [if_pos hdefault, if_pos hdefault]
        -- Alike nodes are both names or both none.
        cases hnode with
        | name hname =>
            exact .bind_take hnext fun hstate =>
              .bind (agrees_slot h hlevels hstate) fun hsource hstate =>
                .bind_spanFrom h hstate hstart fun hspan =>
                  .again (.assign (.name hname) hsource hspan)
        | string | number | field | index | call | sequence | object | assign | arrow =>
            exact hunexpected _
      · rw [if_neg hdefault, if_neg hdefault]
        exact hunexpected _
  | _ => exact hunexpected _

theorem agrees_chain {node node' : Expr} (hstart : sim.start start start')
    (hnode : node.Alike sim.span node') (hstate : sim.state left right) :
    sim.Agrees (Expr.Alike sim.span) (below.chain start mode node left)
      (below'.chain start' mode node' right) :=
  .repeated (hbelow.advances_link start mode) (hbelow'.advances_link start' mode)
    (agrees_link h hlevels hbelow hbelow' hstart) hnode hstate

/-! ## Object literals -/

omit hbelow hbelow' in
theorem agrees_objectKey (hfirst : sim.Tokens token other) (hstate : sim.state left right) :
    sim.Agrees (ObjectKey.Alike sim.span) (below.objectKey token left)
      (below'.objectKey other right) := by
  unfold Level.objectKey
  rw [← hfirst.kind, ← hfirst.text]
  cases token.kind with
  | openSquare =>
      exact .bind (agrees_slot h hlevels hstate) fun hslot hstate =>
        .bind (.expect h hstate _ _) fun _ hstate => .pure (.computed hslot) hstate
  | word => exact .pure (.name (.intro hfirst.span)) hstate
  | string => exact .pure (.string hfirst.span) hstate
  | number => exact .pure (.number hfirst.span) hstate
  | _ => exact .unexpected h hstate _ hfirst

omit hbelow hbelow' in
theorem agrees_objectField (hstate : sim.state left right) :
    sim.Agrees (ObjectField.Alike sim.span) (below.objectField left)
      (below'.objectField right) := by
  refine .bind (.next h hstate) fun hfirst hstate => ?_
  refine .bind (agrees_objectKey h hlevels hfirst hstate) fun hkey hstate => ?_
  refine .bind (agrees_shorthand? h hstate hkey) fun hvalue hstate => ?_
  have hstart := h.span_offset hfirst.span
  cases hvalue with
  | some hvalue => exact .bind_spanFrom h hstate hstart fun hspan => .intro hkey hvalue hspan
  | none =>
      exact .bind (.expect h hstate _ _) fun _ hstate =>
        .bind (agrees_slot h hlevels hstate) fun hvalue hstate =>
          .bind_spanFrom h hstate hstart fun hspan => .intro hkey hvalue hspan

omit hbelow hbelow' in
theorem agrees_objectField? (hstate : sim.state left right) :
    sim.Agrees (Option.Rel (ObjectField.Alike sim.span)) (below.objectField? left)
      (below'.objectField? right) := by
  refine .bind (.next? h hstate _) fun hclose hstate => ?_
  cases hclose with
  | some _ => exact .pure .none hstate
  | none =>
      refine .bind (agrees_objectField h hlevels hstate) fun hfield hstate => ?_
      refine .bind_peek h hstate fun {token other} hnext => ?_
      dsimp only
      rw [← hnext.alike.kind]
      cases token.kind with
      | comma => exact .bind_take hnext fun hstate => .pure (.some hfield) hstate
      | closeCurly => exact .pure (.some hfield) hstate
      | _ =>
          exact .bind (.unexpected h hstate _ hnext.alike) fun (_ : True) hstate =>
            .pure (.some hfield) hstate

theorem agrees_object (hnext : sim.Next left right token other) :
    sim.Agrees (Expr.Alike sim.span) (below.object token left) (below'.object other right) := by
  have hstart := h.span_offset hnext.alike.span
  refine .bind_take hnext fun hstate => ?_
  refine .bind (.many hbelow.length_lt_of_objectField? hbelow'.length_lt_of_objectField?
    (agrees_objectField? h hlevels) hstate) fun hfields hstate => ?_
  refine .bind (.spanFrom h hstate hstart) fun hspan hstate => ?_
  have hliteral := Expr.Alike.object hfields hspan
  refine .bind (.next? h hstate _) fun hassign hstate => ?_
  cases hassign with
  | none => exact .pure hliteral hstate
  | some _ =>
      exact agrees_bind_rebound h hstate hliteral.toBinding fun htarget =>
        .bind (agrees_slot h hlevels hstate) fun hsource hstate =>
          .bind_spanFrom h hstate hstart fun hspan => .assign htarget hsource hspan

/-! ## Groups and arrow functions -/

theorem agrees_arrowFunction {parameters parameters' : Parameters}
    (hparameters : parameters.Alike sim.span parameters')
    (hnext : sim.Next left right token other) :
    sim.Agrees (Expr.Alike sim.span) (below.arrowFunction parameters token mode left)
      (below'.arrowFunction parameters' other mode right) := by
  have hstart := h.span_offset hparameters.span
  refine .bind_take hnext fun hstate => ?_
  have hexpression : sim.Agrees (Expr.Alike sim.span)
      ((do
        let body ← below.slot mode.value
        return .arrow parameters (.expression body) (← spanFrom parameters.span.offset) :
          Parser Expr) (left.took token))
      ((do
        let body ← below'.slot mode.value
        return .arrow parameters' (.expression body) (← spanFrom parameters'.span.offset) :
          Parser Expr) (right.took other)) :=
    .bind (agrees_slot h hlevels hstate) fun hbody hstate =>
      .bind_spanFrom h hstate hstart fun hspan => .arrow hparameters (.expression hbody) hspan
  refine .bind_peek? h hstate (fun _ => hexpression) fun {found found'} hfound => ?_
  -- The token is matched with its fields, so it has to be in that form to be branched on.
  obtain ⟨kind, text, span⟩ := found
  obtain ⟨kind', text', span'⟩ := found'
  obtain rfl : kind = kind' := hfound.alike.kind
  cases kind with
  | openCurly =>
      refine .bind (agrees_block h hlevels hbelow hbelow' hstate)
        fun {block block' _ _} hblock hstate => ?_
      obtain ⟨statements, span⟩ := block
      obtain ⟨statements', span'⟩ := block'
      refine .bind (.spanFrom h hstate hstart) fun hspan hstate => ?_
      exact agrees_chain h hlevels hbelow hbelow' hstart
        (.arrow hparameters (.block hblock.1 hblock.2) hspan) hstate
  | _ => exact hexpression

theorem agrees_emptyGroup {group group' : Span} (hgroup : sim.span group group')
    (hstate : sim.state left right) :
    sim.Agrees (Expr.Alike sim.span) (below.emptyGroup group mode left)
      (below'.emptyGroup group' mode right) := by
  refine .bind_peek h hstate fun {token other} hnext => ?_
  rw [← hnext.alike.kind]
  by_cases hkind : token.kind = .arrow
  · rw [if_pos hkind, if_pos hkind]
    exact agrees_arrowFunction h hlevels hbelow hbelow' (.intro .nil hgroup) hnext
  · rw [if_neg hkind, if_neg hkind]
    exact .unexpected h hstate _ hnext.alike

theorem agrees_filledGroup {content content' : Expr} {group group' : Span}
    (hcontent : content.Alike sim.span content') (hgroup : sim.span group group')
    (hstate : sim.state left right) :
    sim.Agrees (Expr.Alike sim.span) (below.filledGroup content group mode left)
      (below'.filledGroup content' group' mode right) := by
  have hchain : sim.Agrees (Expr.Alike sim.span) (below.chain group.offset mode content left)
      (below'.chain group'.offset mode content' right) :=
    agrees_chain h hlevels hbelow hbelow' (h.span_offset hgroup) hcontent hstate
  refine .bind_peek? h hstate (fun _ => hchain) fun {token other} hnext => ?_
  obtain ⟨kind, text, span⟩ := token
  obtain ⟨kind', text', span'⟩ := other
  obtain rfl : kind = kind' := hnext.alike.kind
  cases kind with
  | arrow =>
      exact agrees_bind_rebound h hstate (hcontent.toParameters hgroup) fun hparameters =>
        agrees_arrowFunction h hlevels hbelow hbelow' hparameters hnext
  | _ => exact hchain

theorem agrees_group (hnext : sim.Next left right token other) :
    sim.Agrees (Expr.Alike sim.span) (below.group token mode left)
      (below'.group other mode right) := by
  have hstart := h.span_offset hnext.alike.span
  refine .bind_take hnext fun hstate => .bind (.next? h hstate _) fun hclose hstate => ?_
  cases hclose with
  | some hclose =>
      exact agrees_emptyGroup h hlevels hbelow hbelow' (h.between hstart (h.span_stop hclose.span))
        hstate
  | none =>
      exact .bind (hlevels.expr hstate) fun hcontent hstate =>
        .bind (.expect h hstate _ _) fun hclose hstate =>
          agrees_filledGroup h hlevels hbelow hbelow' hcontent
            (h.between hstart (h.span_stop hclose.span)) hstate

theorem agrees_expression (hstate : sim.state left right) :
    sim.Agrees (Expr.Alike sim.span) (below.expression mode left)
      (below'.expression mode right) := by
  refine .bind_peek h hstate fun {token other} hnext => ?_
  have hstart := h.span_offset hnext.alike.span
  have hchain {node node' : Expr} (hnode : node.Alike sim.span node') :
      sim.Agrees (Expr.Alike sim.span)
        ((do take token; below.chain token.span.offset mode node : Parser Expr) left)
        ((do take other; below'.chain other.span.offset mode node' : Parser Expr) right) :=
    .bind_take hnext fun hstate => agrees_chain h hlevels hbelow hbelow' hstart hnode hstate
  rw [← hnext.alike.kind, ← hnext.alike.text]
  cases token.kind with
  | string => exact hchain (.string hnext.alike.span)
  | number => exact hchain (.number hnext.alike.span)
  | word => exact hchain (.name (.intro hnext.alike.span))
  | openCurly =>
      exact .bind (agrees_object h hlevels hbelow hbelow' hnext) fun hnode hstate =>
        agrees_chain h hlevels hbelow hbelow' hstart hnode hstate
  | openRound => exact agrees_group h hlevels hbelow hbelow' hnext
  | _ => exact .unexpected h hstate _ hnext.alike

/-! ## Statements -/

omit hbelow hbelow' in
theorem agrees_initializer? (modifier : Modifier) (hstate : sim.state left right) :
    sim.Agrees (Option.Rel (Slot.Alike sim.span)) (below.initializer? modifier left)
      (below'.initializer? modifier right) := by
  refine .bind (.next h hstate) fun {token other _ _} htoken hstate => ?_
  rw [← htoken.kind]
  by_cases hassign : token.kind = .assign
  · rw [if_pos hassign, if_pos hassign]
    exact .bind (agrees_slot h hlevels hstate) fun hvalue hstate =>
      .bind (.expect h hstate _ _) fun _ hstate => .pure (.some hvalue) hstate
  · rw [if_neg hassign, if_neg hassign]
    by_cases hconst : modifier = .asConst
    · rw [if_pos hconst, if_pos hconst]
      exact .unexpected h hstate _ htoken
    · rw [if_neg hconst, if_neg hconst]
      by_cases hsemicolon : token.kind = .semicolon
      · rw [if_pos hsemicolon, if_pos hsemicolon]
        exact .pure .none hstate
      · rw [if_neg hsemicolon, if_neg hsemicolon]
        exact .unexpected h hstate _ htoken

omit hbelow hbelow' in
theorem agrees_variableDeclaration (modifier : Modifier)
    (hnext : sim.Next left right token other) :
    sim.Agrees (Statement.Alike sim.span) (below.variableDeclaration token modifier left)
      (below'.variableDeclaration other modifier right) := by
  have hstart := h.span_offset hnext.alike.span
  refine .bind_take hnext fun hstate =>
    .bind (agrees_declaredName h hstate _) fun hname hstate => ?_
  refine .bind (agrees_initializer? h hlevels modifier hstate) fun hvalue hstate => ?_
  refine .bind_note h hstate rfl rfl fun hstate => .bind_spanFrom h hstate hstart fun hspan => ?_
  cases hvalue with
  | some hvalue => exact .initialized hname hvalue hspan
  | none => exact .declaration hname hspan

theorem agrees_functionDeclaration (hnext : sim.Next left right token other) :
    sim.Agrees (Statement.Alike sim.span) (below.functionDeclaration token left)
      (below'.functionDeclaration other right) := by
  have hstart := h.span_offset hnext.alike.span
  refine .bind_take hnext fun hstate =>
    .bind (agrees_declaredName h hstate _) fun hname hstate => ?_
  refine .bind (.expect h hstate _ _) fun _ hstate => ?_
  refine .bind (.separated h _ length_le_of_declaredName length_le_of_declaredName
    (fun hstate => agrees_declaredName h hstate _) hstate) fun hparameters hstate => ?_
  refine .bind (agrees_block h hlevels hbelow hbelow' hstate)
    fun {block block' _ _} hblock hstate => ?_
  obtain ⟨statements, span⟩ := block
  obtain ⟨statements', span'⟩ := block'
  exact .bind_note h hstate rfl rfl fun hstate => .bind_spanFrom h hstate hstart fun hspan =>
    .function hname hparameters hblock.1 hspan

omit hbelow hbelow' in
theorem agrees_expressionStatement (hstate : sim.state left right) :
    sim.Agrees (Statement.Alike sim.span) (below.expressionStatement left)
      (below'.expressionStatement right) :=
  .bind (agrees_slot h hlevels hstate) fun hslot hstate =>
    .bind (.expect h hstate _ _) fun _ hstate => .pure (.expression hslot) hstate

theorem agrees_statementBody (hstate : sim.state left right) :
    sim.Agrees (Statement.Alike sim.span) (below.statementBody left)
      (below'.statementBody right) := by
  refine .bind_peek h hstate fun {token other} hnext => ?_
  have hexpression := agrees_expressionStatement h hlevels hstate
  rw [← hnext.alike.kind, ← hnext.alike.text]
  by_cases hword : token.kind = .word
  · rw [if_pos hword, if_pos hword]
    cases Modifier.ofWord? token.text with
    | some modifier => exact agrees_variableDeclaration h hlevels modifier hnext
    | none =>
        dsimp only
        by_cases hfunction : token.text = Spelling.functionWord
        · rw [if_pos hfunction, if_pos hfunction]
          exact agrees_functionDeclaration h hlevels hbelow hbelow' hnext
        · rw [if_neg hfunction, if_neg hfunction]
          by_cases hunsupported : Spelling.unsupportedWords.contains token.text = true
          · rw [if_pos hunsupported, if_pos hunsupported]
            exact .fail h hstate (.unsupportedStatement _) (h.span_offset hnext.alike.span)
          · rw [if_neg hunsupported, if_neg hunsupported]
            exact hexpression
  · rw [if_neg hword, if_neg hword]
    exact hexpression

omit hlevels hbelow hbelow' in
/-- Statements end alike when their bodies do. -/
theorem agrees_terminated {body body' : Parser Statement}
    (hbody : ∀ {left right}, sim.state left right →
      sim.Agrees (Statement.Alike sim.span) (body left) (body' right))
    (hstate : sim.state left right) :
    sim.Agrees (Statement.Alike sim.span) (Level.terminated body left)
      (Level.terminated body' right) :=
  .bind_offset h hstate fun hstart =>
    .bind (.inStatement h hstart (.construct h _ hstate hbody)) fun hstatement hstate =>
      .bind (.many length_lt_of_next? length_lt_of_next? (fun hstate => .next? h hstate _) hstate)
        fun _ hstate => .pure hstatement hstate

/-! ## Levels -/

/-- The levels above levels that agree agree. -/
theorem Levels.above : sim.Levels below.above below'.above where
  expr hstate := .construct h _ hstate fun hstate =>
    .within h hstate (agrees_expression h hlevels hbelow hbelow')
  statement hstate := agrees_terminated h (fun hstate =>
    .within h hstate (agrees_statementBody h hlevels hbelow hbelow')) hstate

/-- Two runs over whole texts end alike. -/
theorem agrees_statements (hstate : sim.state left right) :
    sim.Agrees (List.Forall₂ (Statement.Alike sim.span)) (below.statements left)
      (below'.statements right) := by
  refine .many hbelow.length_lt_of_statement? hbelow'.length_lt_of_statement?
    (fun hstate => .bind_atEnd h hstate fun ended => ?_) hstate
  cases ended with
  | true => exact .pure .none hstate
  | false =>
      exact .bind (hlevels.statement hstate) fun hstatement hstate =>
        .pure (.some hstatement) hstate

omit hlevels hbelow hbelow' in
/-- Levels of one height agree. -/
theorem levels_ofHeight (height : Nat) :
    sim.Levels (Level.ofHeight height) (Level.ofHeight height) := by
  induction height with
  | zero =>
      exact ⟨fun hstate => .construct h _ hstate fun hstate => .tooDeep h hstate,
        agrees_terminated h fun hstate => .tooDeep h hstate⟩
  | succ height ih =>
      exact ih.above h (grammatical_ofHeight height) (grammatical_ofHeight height)

omit hlevels hbelow hbelow' in
/-- Two runs over whole texts with levels of one height end alike. -/
theorem agrees_statements_ofHeight (height : Nat) (hstate : sim.state left right) :
    sim.Agrees (List.Forall₂ (Statement.Alike sim.span)) ((Level.ofHeight height).statements left)
      ((Level.ofHeight height).statements right) :=
  agrees_statements h (levels_ofHeight h height) (grammatical_ofHeight height)
    (grammatical_ofHeight height) hstate

end Simulation

end Scriptlet
