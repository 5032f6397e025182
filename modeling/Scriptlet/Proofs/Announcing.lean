import Scriptlet.Parse.Program
import Scriptlet.Proofs.Declarations
import Scriptlet.Proofs.Repetition

/-!
# What a parse notes of declarations

A parse notes a declaration down when it is complete, while the nodes around it are still to come or
are read again as something else. `parser.Announces before after` says that a run takes some nodes
over and gives others: when the declarations of the former are the last ones noted at its start,
those of the latter are the last ones noted at its end. Every operation that makes a node takes the
nodes right below it over, so it announces nothing but the declaration that it makes.
-/

namespace Scriptlet

open Scriptlet.Parser

/-! ## Events of declarations -/

/-- The event that a declaration is noted with. -/
def Statement.event? : Statement → Option Event
  | .variableDeclaration modifier name initializer _ =>
    some (.variableDeclared modifier name.text initializer.isSome)
  | .functionDeclaration name parameters body _ =>
    some (.functionDeclared name.text parameters.length body.length)
  | .expression _ => none

/-- Whether an event tells of a declaration. -/
def Event.isDeclaration : Event → Bool
  | .variableDeclared _ _ _ => true
  | .functionDeclared _ _ _ => true
  | _ => false

/-- What a journal tells of declarations, the earliest first. -/
def Event.announced (journal : List Event) : List Event :=
  (journal.filter Event.isDeclaration).reverse

theorem Event.announced_cons_of_isDeclaration {event : Event} (h : event.isDeclaration = true)
    (journal : List Event) : announced (event :: journal) = announced journal ++ [event] := by
  simp [announced, h]

theorem Event.announced_cons_of_not {event : Event} (h : event.isDeclaration = false)
    (journal : List Event) : announced (event :: journal) = announced journal := by
  simp [announced, h]

/-- What is to be noted of the declarations of some nodes. -/
def Node.announcements (nodes : List Node) : List Event :=
  (nodes.flatMap declared).filterMap Statement.event?

namespace Node

theorem announcements_append (nodes others : List Node) :
    announcements (nodes ++ others) = announcements nodes ++ announcements others := by
  simp [announcements]

/-- Of a node that is no declaration there is to note what there is of the nodes below it. -/
theorem announcements_children {node : Node} {nodes : List Node} (hnode : node.declaration? = none)
    (hchildren : node.children = nodes) : announcements nodes = announcements [node] := by
  simp [announcements, declared_eq node, hnode, hchildren]

theorem announcements_eq_nil {node : Node} (h : node.declared = []) :
    announcements [node] = [] := by
  simp [announcements, h]

/-- Of a declaration there is to note, last, what it declares itself. -/
theorem announcements_declaration {statement : Statement} {event : Event}
    (h : statement.event? = some event) :
    announcements [.statement statement] =
      announcements (Node.statement statement).children ++ [event] := by
  have hdeclares : (Node.statement statement).declaration? = some statement := by
    cases statement with
    | variableDeclaration | functionDeclaration => rfl
    | expression => cases h
  simp [announcements, declared_eq (.statement statement), hdeclares, h]

end Node

/-! ## Runs that announce -/

/-- The nodes of a round of a loop, whether it goes on or is done. -/
def Round.nodes {α β : Type} (held : α → List Node) (after : β → List Node) :
    Round α β → List Node
  | .again value => held value
  | .done result => after result

/-- Where what is noted last is what there is to note of the nodes `before`, every run that gives a
value ends where it is what there is to note of the nodes `after` it. What is noted `earlier` than
that stays. -/
def Parser.Announces {α : Type} (parser : Parser α) (before : List Node)
    (after : α → List Node) : Prop :=
  ∀ earlier start value stop, parser start = .ok value stop →
    Event.announced start.journal = earlier ++ Node.announcements before →
      Event.announced stop.journal = earlier ++ Node.announcements (after value)

namespace Parser.Announces

variable {α β : Type} {parser first : Parser α} {rest : α → Parser β} {before : List Node}
  {after : α → List Node} {token : Token}

/-- A parser that leaves the journal as it is, or notes no declaration, announces nothing. -/
theorem nothing (h : ∀ {start value stop}, parser start = .ok value stop →
    Event.announced stop.journal = Event.announced start.journal) :
    parser.Announces before fun _ => before :=
  fun _ _ _ _ hrun hstart => (h hrun).trans hstart

theorem bind {between : α → List Node} {after : β → List Node}
    (hfirst : first.Announces before between)
    (hrest : ∀ value, (rest value).Announces (between value) after) :
    (first >>= rest).Announces before after := by
  intro earlier start value stop hrun hstart
  rw [bind_run] at hrun
  split at hrun
  · next given reached hgiven => exact hrest given _ _ _ _ hrun (hfirst _ _ _ _ hgiven hstart)
  · cases hrun

/-- Nodes of which there is the same to note can stand for one another. -/
theorem of_eq {others : List Node} (h : parser.Announces others after)
    (heq : Node.announcements before = Node.announcements others) :
    parser.Announces before after :=
  fun earlier start value stop hrun hstart => h earlier start value stop hrun (heq ▸ hstart)

/-- Nodes that are there already stay as they are. -/
theorem frame (h : parser.Announces [] after) (before : List Node) :
    parser.Announces before fun value => before ++ after value := by
  intro earlier start value stop hrun hstart
  have hstop := h (earlier ++ Node.announcements before) start value stop hrun
    (hstart.trans (List.append_nil _).symm)
  rw [hstop, Node.announcements_append, List.append_assoc]

theorem pure {value : α} (h : Node.announcements before = Node.announcements (after value)) :
    (Pure.pure value : Parser α).Announces before after := by
  intro earlier start value stop hrun hstart
  cases hrun
  rw [hstart, h]

theorem fail (cause : Cause) (offset : Nat) :
    (Parser.fail cause offset : Parser α).Announces before after :=
  fun _ _ _ _ hrun _ => nomatch hrun

/-! ### Operations on tokens -/

theorem offset : Parser.offset.Announces before fun _ => before :=
  nothing fun hrun => by cases hrun; rfl

theorem atEnd : Parser.atEnd.Announces before fun _ => before :=
  nothing fun hrun => by cases hrun; rfl

theorem spanFrom (start : Nat) : (Parser.spanFrom start).Announces before fun _ => before :=
  nothing fun hrun => by cases hrun; rfl

theorem peek? : Parser.peek?.Announces before fun _ => before :=
  nothing fun {start _ _} hrun => by
    rw [peek?_run] at hrun
    split at hrun <;> cases hrun
    rfl

theorem take (token : Token) : (Parser.take token).Announces before fun _ => before :=
  nothing fun hrun => by cases hrun; exact Event.announced_cons_of_not rfl _

/-- Only declarations are announced. -/
theorem note {event : Event} (h : event.isDeclaration = false) :
    (Parser.note event).Announces before fun _ => before :=
  nothing fun hrun => by cases hrun; exact Event.announced_cons_of_not h _

theorem failAtEnd : (Parser.failAtEnd : Parser α).Announces before after :=
  .bind .offset fun _ => .fail _ _

theorem unexpected (expectation : Expectation) (found : Token) :
    (Parser.unexpected expectation found : Parser α).Announces before after :=
  .fail _ _

theorem peek : Parser.peek.Announces before fun _ => before :=
  .bind .peek? fun token? => by
    cases token? with
    | some token => exact .pure rfl
    | none => exact .failAtEnd

theorem next : Parser.next.Announces before fun _ => before :=
  .bind .peek fun token => .bind (.take token) fun _ => .pure rfl

theorem expect (kind : Kind) (expectation : Expectation) :
    (Parser.expect kind expectation).Announces before fun _ => before := by
  refine .bind .peek fun token => ?_
  split
  · exact .bind (.take token) fun _ => .pure rfl
  · exact .unexpected _ _

theorem next? (kind : Kind) : (Parser.next? kind).Announces before fun _ => before := by
  refine .bind .peek? fun token? => ?_
  split
  · split
    · exact .bind (.take _) fun _ => .pure rfl
    · exact .pure rfl
  · exact .pure rfl

/-! ### Nodes -/

/-- What is made of a span that is taken announces what it is made of. -/
theorem make {start : Nat} {make : Span → α}
    (h : ∀ span, Node.announcements before = Node.announcements (after (make span))) :
    (Parser.spanFrom start >>= fun span => Pure.pure (make span)).Announces before after :=
  .bind (.spanFrom start) fun span => .pure (h span)

/-- A declaration is announced when it is made. -/
theorem declare {start : Nat} {event : Event} {make : Span → Statement}
    (hevent : ∀ span, (make span).event? = some event) (hdeclares : event.isDeclaration = true)
    (h : ∀ span, Node.announcements before =
      Node.announcements (Node.statement (make span)).children) :
    (Parser.note event >>= fun _ => Parser.spanFrom start >>= fun span =>
      Pure.pure (make span)).Announces before fun statement => [.statement statement] := by
  intro earlier state value stop hrun hstart
  cases hrun
  rw [Node.announcements_declaration (hevent _), ← List.append_assoc, ← h, ← hstart]
  exact Event.announced_cons_of_isDeclaration hdeclares _

/-- What is read again announces what it was read as. -/
theorem rebound {result : Except Violation α}
    (h : ∀ value, result = .ok value →
      Node.announcements before = Node.announcements (after value)) :
    (Level.rebound result).Announces before after := by
  unfold Level.rebound
  split
  · exact .pure (h _ rfl)
  · exact .fail _ _

/-! ### Constructs and loops -/

theorem construct (kind : Construct) (h : parser.Announces before after) :
    (Parser.construct kind parser).Announces before after :=
  .bind .offset fun _ => .bind (.note rfl) fun _ => .bind h fun _ => .bind (.note rfl) fun _ =>
    .pure rfl

theorem tooDeep : (Parser.tooDeep : Parser α).Announces before after :=
  fun _ _ _ _ hrun _ => nomatch hrun

theorem within (h : parser.Announces before after) :
    (Parser.within parser).Announces before after := by
  intro earlier start value stop hrun hstart
  rw [within_run] at hrun
  split at hrun
  · next reached hparser =>
    cases hrun
    exact h earlier (start.atDepth (start.depth + 1)) value reached hparser hstart
  · cases hrun

theorem inStatement (start : Nat) (h : parser.Announces before after) :
    (Parser.inStatement start parser).Announces before after := by
  intro earlier state value stop hrun hstart
  simp only [Parser.inStatement] at hrun
  split at hrun
  · next hparser =>
    cases hrun
    exact h _ _ _ _ hparser hstart
  · cases hrun

/-- A loop announces what its rounds announce, each going on from the nodes of the one before. -/
theorem repeated {step : α → Parser (Round α β)} (held : α → List Node) {after : β → List Node}
    (h : ∀ value, (step value).Announces (held value) (Round.nodes held after)) (value : α) :
    (Parser.repeated step value).Announces (held value) after := by
  intro earlier start result stop hrun hstart
  change rounds step start.cursor.rest value start = _ at hrun
  generalize start.cursor.rest = text at hrun
  induction text generalizing value start with
  | nil =>
      rw [rounds_run] at hrun
      split at hrun
      · next hstep =>
        cases hrun
        exact h value _ _ _ _ hstep hstart
      · cases hrun
      · cases hrun
  | cons _ text ih =>
      rw [rounds_run] at hrun
      split at hrun
      · next hstep =>
        cases hrun
        exact h value _ _ _ _ hstep hstart
      · next hstep => exact ih _ _ (h value _ _ _ _ hstep hstart) hrun
      · cases hrun

/-- A list announces its items. -/
theorem many {item? : Parser (Option α)} (toNode : α → Node)
    (h : item?.Announces [] fun item? => item?.toList.map toNode) :
    (Parser.many item?).Announces [] fun items => items.map toNode := by
  -- The loop holds the items so far, the last one first.
  refine repeated (fun items => items.reverse.map toNode) (fun items => ?_) []
  refine .bind (h.frame _) fun item? => ?_
  cases item? with
  | some item => exact .pure (by simp [Round.nodes])
  | none => exact .pure (by simp [Round.nodes])

/-- A list between brackets announces its items. -/
theorem separated {item : Parser α} (toNode : α → Node) (separator : Expectation)
    (h : item.Announces [] fun value => [toNode value]) :
    (Parser.separated item separator).Announces [] fun items => items.map toNode := by
  refine .bind (.next? _) fun close? => ?_
  split
  · exact .pure rfl
  · refine repeated (fun items => items.reverse.map toNode) (fun items => ?_) []
    refine .bind (h.frame _) fun value => .bind .next fun token => ?_
    split
    · exact .pure (by simp [Round.nodes])
    · exact .pure (by simp [Round.nodes])
    · exact .unexpected _ _

/-- The redundant semicolons behind a statement announce nothing. -/
theorem semicolons :
    (Parser.many (Parser.next? .semicolon)).Announces before fun _ => before :=
  repeated (fun _ => before) (fun _ => .bind (.next? _) fun token? => by
    cases token? with
    | some token => exact .pure rfl
    | none => exact .pure rfl) []

theorem terminated {body : Parser Statement} {after : Statement → List Node}
    (h : body.Announces before after) : (Level.terminated body).Announces before after :=
  .bind .offset fun start => .bind ((h.construct _).inStatement start) fun _ =>
    .bind .semicolons fun _ => .pure rfl

end Parser.Announces

/-! ## The parts of the grammar -/

/-- What a level gives holds what its run announces. -/
structure Level.Announces (level : Level) : Prop where
  expr (mode) : (level.expr mode).Announces [] fun expr => [.expr expr]
  statement : level.statement.Announces [] fun statement => [.statement statement]

namespace Level

open Node (announcements announcements_append announcements_children announcements_eq_nil)

theorem announcements_nameExpr (name : Name) : announcements [.expr (.name name)] = [] :=
  (announcements_children rfl rfl).symm.trans (announcements_eq_nil name.declared_eq_nil)

theorem announces_declaredName (expectation : Expectation) :
    (declaredName expectation).Announces [] fun name => [.name name] := by
  refine .bind .next fun token => ?_
  split
  · split
    · exact .fail _ _
    · exact .pure (announcements_eq_nil (Name.declared_eq_nil _)).symm
  · exact .unexpected _ _

/-- What a shorthand entry has for its value declares nothing. -/
theorem announces_shorthand? (key : ObjectKey) :
    (shorthand? key).Announces [] fun value => value.toList.map .slot := by
  have hname (name : Name) : announcements [.slot (.bare (.name name))] = [] :=
    (announcements_children rfl rfl).symm.trans (announcements_nameExpr name)
  unfold Level.shorthand?
  split
  · refine .bind .peek fun token => ?_
    split
    · exact .pure (hname _).symm
    · exact .pure (hname _).symm
    · exact .pure rfl
  · exact .pure rfl

namespace Announces

variable {below : Level} (h : below.Announces)

include h

theorem slot (mode : Mode) : (below.slot mode).Announces [] fun slot => [.slot slot] :=
  .bind .offset fun _ => .bind (h.expr mode) fun _ => .make fun _ =>
    announcements_children rfl rfl

theorem block : below.block.Announces [] fun body => [.block body.1 body.2] := by
  refine .bind (.expect _ _) fun brace => .bind (.many .statement ?_) fun statements =>
    .make fun span => announcements_children rfl rfl
  refine .bind (.next? _) fun close? => ?_
  split
  · exact .pure rfl
  · exact .bind h.statement fun _ => .pure rfl

theorem arguments : below.arguments.Announces [] fun arguments => arguments.map .slot :=
  .separated .slot _ (h.slot .item)

/-! ### Object literals -/

theorem objectKey (first : Token) : (below.objectKey first).Announces [] fun key => [.key key] := by
  unfold Level.objectKey
  split
  · exact .bind (h.slot .plain) fun _ => .bind (.expect _ _) fun _ => .pure
      (announcements_children rfl rfl)
  · exact .pure ((announcements_eq_nil (Name.declared_eq_nil _)).symm.trans
      (announcements_children rfl rfl))
  · exact .pure (announcements_children rfl rfl)
  · exact .pure (announcements_children rfl rfl)
  · exact .unexpected _ _

theorem objectField : below.objectField.Announces [] fun field => [.field field] := by
  refine .bind .next fun first => .bind (h.objectKey first) fun key =>
    .bind ((announces_shorthand? key).frame _) fun value? => ?_
  split
  · exact .make fun _ => announcements_children rfl rfl
  · exact .bind (.expect _ _) fun _ => .bind ((h.slot .item).frame _) fun _ =>
      .make fun _ => announcements_children rfl rfl

theorem objectField? : below.objectField?.Announces [] fun field? => field?.toList.map .field := by
  refine .bind (.next? _) fun close? => ?_
  split
  · exact .pure rfl
  · refine .bind h.objectField fun field => .bind .peek fun token => ?_
    split
    · exact .bind (.take token) fun _ => .pure rfl
    · exact .pure rfl
    · exact .unexpected _ _

/-- A literal that is read again as a pattern declares nothing, and neither does the pattern. -/
theorem object (brace : Token) : (below.object brace).Announces [] fun expr => [.expr expr] := by
  refine .bind (.take brace) fun _ => .bind (.many .field h.objectField?) fun fields =>
    .bind (.spanFrom _) fun span => ?_
  have hliteral : announcements (fields.map .field) = announcements [.expr (.object fields span)] :=
    announcements_children rfl rfl
  refine .bind (.next? _) fun assign? => ?_
  split
  · refine .bind (.rebound fun target htarget => ?_) fun target =>
      .bind ((h.slot .item).frame [.binding target]) fun _ =>
        .make fun _ => announcements_children rfl rfl
    have hstands := (Expr.toBinding_eq_ok_iff _ _).1 htarget
    rw [hliteral, announcements_eq_nil hstands.declared_eq_nil,
      announcements_eq_nil target.declared_eq_nil]
  · exact .pure hliteral

/-! ### Chains -/

theorem link (start : Nat) (mode : Mode) (node : Expr) :
    (below.link start mode node).Announces [.expr node]
      (Round.nodes (fun next => [.expr next]) fun expr => [.expr expr]) := by
  refine .bind .peek? fun token? => ?_
  split
  · exact .pure rfl
  · split
    · exact .pure rfl
    · exact .pure rfl
    · exact .pure rfl
    · exact .pure rfl
    · split
      · exact .pure rfl
      · exact .bind (.take _) fun _ => .bind ((h.expr mode).frame _) fun _ =>
          .make fun _ => announcements_children rfl rfl
    · exact .bind (.take _) fun _ => .make fun _ => announcements_children rfl rfl
    · exact .bind (.take _) fun _ => .bind ((h.slot .plain).frame _) fun _ =>
        .bind (.expect _ _) fun _ => .make fun _ => announcements_children rfl rfl
    · exact .bind (.take _) fun _ => .bind (h.arguments.frame _) fun _ =>
        .make fun _ => announcements_children rfl rfl
    · split
      · split
        -- The name before `=` was an expression, is a binding now, and declares nothing as either.
        · next name =>
          have hname : announcements [.expr (.name name)] = announcements [.binding (.name name)] :=
            (announcements_nameExpr name).trans
              (announcements_eq_nil (Binding.declared_eq_nil _)).symm
          exact .of_eq (.bind (.take _) fun _ => .bind ((h.slot .item).frame _) fun _ =>
            .make fun _ => announcements_children rfl rfl) hname
        · exact .unexpected _ _
      · exact .unexpected _ _
    · exact .unexpected _ _

theorem chain (start : Nat) (mode : Mode) (node : Expr) :
    (below.chain start mode node).Announces [.expr node] fun expr => [.expr expr] :=
  .repeated (fun node => [.expr node]) (h.link start mode) node

/-! ### Groups and arrow functions -/

theorem arrowFunction (parameters : Parameters) (arrow : Token) (mode : Mode) :
    (below.arrowFunction parameters arrow mode).Announces [.parameters parameters]
      fun expr => [.expr expr] := by
  refine .bind (.take arrow) fun _ => .bind .peek? fun token? => ?_
  split
  · exact .bind (h.block.frame _) fun body => .bind (.spanFrom _) fun span =>
      .of_eq (h.chain _ _ _) (announcements_children rfl rfl)
  · exact .bind ((h.slot mode.value).frame _) fun _ =>
      .make fun _ => announcements_children rfl rfl

theorem emptyGroup (span : Span) (mode : Mode) :
    (below.emptyGroup span mode).Announces [] fun expr => [.expr expr] := by
  refine .bind .peek fun arrow => ?_
  split
  · exact .of_eq (h.arrowFunction ⟨[], span⟩ arrow mode) (announcements_children rfl rfl)
  · exact .unexpected _ _

/-- Parameters declare what the content of their group declares. -/
theorem filledGroup (content : Expr) (span : Span) (mode : Mode) :
    (below.filledGroup content span mode).Announces [.expr content] fun expr => [.expr expr] := by
  refine .bind .peek? fun token? => ?_
  split
  · refine .bind (.rebound fun parameters hparameters => ?_) fun parameters =>
      h.arrowFunction parameters _ mode
    simp [announcements, Expr.toParameters_declared hparameters]
  · exact h.chain _ _ _

theorem group (bracket : Token) (mode : Mode) :
    (below.group bracket mode).Announces [] fun expr => [.expr expr] := by
  refine .bind (.take bracket) fun _ => .bind (.next? _) fun close? => ?_
  split
  · exact h.emptyGroup _ mode
  · exact .bind (h.expr .group) fun content => .bind (.expect _ _) fun _ => h.filledGroup _ _ mode

theorem expression (mode : Mode) :
    (below.expression mode).Announces [] fun expr => [.expr expr] := by
  refine .bind .peek fun token => ?_
  dsimp only
  split
  · exact .bind (.take token) fun _ => .of_eq (h.chain _ _ _) (announcements_children rfl rfl)
  · exact .bind (.take token) fun _ => .of_eq (h.chain _ _ _) (announcements_children rfl rfl)
  · exact .bind (.take token) fun _ => .of_eq (h.chain _ _ _) (announcements_nameExpr _).symm
  · exact .bind (h.object token) fun _ => h.chain _ _ _
  · exact h.group token mode
  · exact .unexpected _ _

/-! ### Statements -/

theorem initializer? (modifier : Modifier) :
    (below.initializer? modifier).Announces [] fun value => value.toList.map .slot := by
  refine .bind .next fun token => ?_
  split
  · exact .bind (h.slot .plain) fun _ => .bind (.expect _ _) fun _ => .pure rfl
  · split
    · exact .unexpected _ _
    · split
      · exact .pure rfl
      · exact .unexpected _ _

theorem variableDeclaration (keyword : Token) (modifier : Modifier) :
    (below.variableDeclaration keyword modifier).Announces [] fun it => [.statement it] :=
  .bind (.take keyword) fun _ => .bind (announces_declaredName _) fun _ =>
    .bind ((h.initializer? modifier).frame _) fun _ =>
      .declare (fun _ => rfl) rfl fun _ => rfl

theorem functionDeclaration (keyword : Token) :
    (below.functionDeclaration keyword).Announces [] fun it => [.statement it] := by
  refine .bind (.take keyword) fun _ => .bind (announces_declaredName _) fun name =>
    .bind (.expect _ _) fun _ =>
      .bind ((Parser.Announces.separated .name _ (announces_declaredName _)).frame _)
        fun parameters => .bind (h.block.frame _) fun body =>
          .declare (fun _ => rfl) rfl fun _ => ?_
  -- The statements of the body are right below the declaration, and no block is.
  rw [announcements_append, ← announcements_children rfl rfl, ← announcements_append,
    List.append_assoc]
  rfl

theorem expressionStatement :
    below.expressionStatement.Announces [] fun it => [.statement it] :=
  .bind (h.slot .plain) fun _ => .bind (.expect _ _) fun _ =>
    .pure (announcements_children rfl rfl)

theorem statementBody : below.statementBody.Announces [] fun it => [.statement it] := by
  refine .bind .peek fun token => ?_
  split
  · split
    · exact h.variableDeclaration token _
    · split
      · exact h.functionDeclaration token
      · split
        · exact .fail _ _
        · exact h.expressionStatement
  · exact h.expressionStatement

end Announces

/-- What every level of the grammar gives holds what its run announces. -/
theorem announces_ofHeight (height : Nat) : (ofHeight height).Announces := by
  induction height with
  | zero => exact ⟨fun _ => .construct _ .tooDeep, .terminated .tooDeep⟩
  | succ height ih =>
      exact ⟨fun mode => .construct _ (.within (ih.expression mode)),
        .terminated (.within ih.statementBody)⟩

end Level

/-- What a run over a text notes of declarations is what the tree holds of them. -/
theorem parseWithin_announced {limit : Nat} {text : List Char} {statements : List Statement}
    {stop : ParseState} (h : parseWithin limit text = .ok statements stop) :
    Event.announced stop.journal = Node.announcements (statements.map .statement) := by
  have hstatements : (Level.ofHeight limit).statements.Announces []
      fun statements => statements.map .statement := by
    refine .many .statement (.bind .atEnd fun ended => ?_)
    split
    · exact .pure rfl
    · exact .bind (Level.announces_ofHeight limit).statement fun _ => .pure rfl
  exact hstatements [] (.start text) statements stop h rfl

end Scriptlet
