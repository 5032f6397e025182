import Scriptlet.Parse.Program
import Scriptlet.Proofs.Stalling

/-!
# What the parsers of the grammar are composed of

Every part of the grammar is composed of a few operations and of the parsers of the level below.
`Composed inner known parser` says so of any inner parsers, and keeps account of what is known where
the parser starts: only a token that is next may be taken, and only where a token is known may the
text be refused. What stands behind a part stalls at the end of the text, so the end is only ever
met by a parser that asks for a token, with one exception: behind an opening bracket or an arrow a
parser may find no token and still ask the level below.

What is to be shown of every run of the grammar is shown of each operation once, by induction on the
composition.
-/

namespace Scriptlet

open Scriptlet.Parser

/-- What is known of the text where a parser starts: nothing, the next token, or the token that was
taken last. -/
inductive Known where
  | nothing
  | next (token : Token)
  | behind (token : Token)

/-- What is known is so at a place, behind the tokens that were taken. -/
def Known.At : Known → List Token → Place → Prop
  | .nothing, _, _ => True
  | .next token, _, here => here.Next token
  | .behind token, taken, _ => taken.getLast? = some token

/-- Whether behind a token of the kind a token decides if an expression or a statement follows: the
closing bracket, or the bracket of a block. -/
def Kind.invites : Kind → Bool
  | .openRound | .openCurly | .arrow => true
  | _ => false

/-- The last of some tokens leaves open whether an expression or a statement follows. -/
def Invites (found : List Token) : Prop :=
  ∃ last ∈ found.getLast?, last.kind.invites = true

/-- Where a parser may look for a token that need not be there, and whether, without one, it may
still ask for an expression or a statement. -/
inductive Known.Looks : Known → Prop → Prop where
  | nothing : Looks .nothing False
  | behind {token : Token} : token.kind.invites = true → Looks (.behind token) True

/-- The causes that the grammar refuses a text for, at a token or behind one. -/
inductive Cause.Refuses : Cause → Prop where
  | unexpected (expectation found) : Cause.Refuses (.unexpected expectation found)
  | unsupportedStatement (word) : Cause.Refuses (.unsupportedStatement word)
  | notRebindable (cause) : Cause.Refuses (.notRebindable cause)
  | reservedName (word) : Cause.Refuses (.reservedName word)

/-- The events that neither take a token nor open or close a construct. -/
inductive Event.Declares : Event → Prop where
  | variable (modifier name initialized) :
      Event.Declares (.variableDeclared modifier name initialized)
  | function (name parameters statements) :
      Event.Declares (.functionDeclared name parameters statements)

/-- The parsers of a level. -/
inductive Level.Has (level : Level) : {α : Type} → Parser α → Prop where
  | expr (mode) : Has level (level.expr mode)
  | statement : Has level level.statement

/-- A parser that is composed of the operations on tokens and of inner parsers. -/
inductive Composed (inner : {α : Type} → Parser α → Prop) :
    {α : Type} → Known → Parser α → Prop where
  | inner {α : Type} {parser : Parser α} : inner parser → Composed inner .nothing parser
  | spanned {α β : Type} {parser : Parser α} (make : α → Span → β) :
      inner parser →
      Composed inner .nothing (offset >>= fun start => parser >>= fun value =>
        spanFrom start >>= fun span => Pure.pure (make value span))
  | pure {α : Type} (value : α) : Composed inner .nothing (Pure.pure value)
  | bind {α β : Type} {known} {first : Parser α} {rest : α → Parser β} :
      Composed inner known first → (∀ value, Composed inner .nothing (rest value)) →
      (∀ value, (rest value).Stalls False) → Composed inner known (first >>= rest)
  | atEnd {α : Type} {rest : Bool → Parser α} :
      (∀ ended, Composed inner .nothing (rest ended)) → (rest true).Stalls False →
      Composed inner .nothing (atEnd >>= rest)
  | spanFrom (start) : Composed inner .nothing (spanFrom start)
  | note {event : Event} : event.Declares → Composed inner .nothing (note event)
  | peek? {α : Type} {known} {deep : Prop} {rest : Option Token → Parser α} :
      known.Looks deep → Composed inner .nothing (rest none) → (rest none).Stalls deep →
      (∀ token, Composed inner (.next token) (rest (some token))) →
      Composed inner known (peek? >>= rest)
  | peek {α : Type} {rest : Token → Parser α} :
      (∀ token, Composed inner (.next token) (rest token)) →
      Composed inner .nothing (peek >>= rest)
  | take {α : Type} {token} {rest : Unit → Parser α} :
      Composed inner (.behind token) (rest ()) → Composed inner (.next token) (take token >>= rest)
  | failNext {α : Type} (token) {cause : Cause} (offset) :
      cause.Refuses → Composed inner (.next token) (fail cause offset : Parser α)
  | failBehind {α : Type} (token) {cause : Cause} (offset) :
      cause.Refuses → Composed inner (.behind token) (fail cause offset : Parser α)
  | repeated {α β : Type} {known} {step : α → Parser (Round α β)} (value) :
      Advances step → Composed inner known (step value) →
      (∀ {value next here there}, (step value).CanGive here (.again next) there →
        Composed inner .nothing (step next)) →
      (∀ {value next here there}, (step value).CanGive here (.again next) there →
        (step next).Stalls False) →
      Composed inner known (repeated step value)
  | unaware {α : Type} {known} {parser : Parser α} :
      Composed inner .nothing parser → Composed inner known parser

/-- What may be known where the text is refused. -/
inductive Known.Token : Known → Prop where
  | next (token) : Known.Token (.next token)
  | behind (token) : Known.Token (.behind token)

namespace Composed

variable {inner : {α : Type} → Parser α → Prop} {known : Known} {token : Token} {α β : Type}

theorem fail {cause : Cause} (h : known.Token) (hcause : cause.Refuses) (offset : Nat) :
    Composed inner known (Parser.fail cause offset : Parser α) := by
  cases h with
  | next token => exact .failNext token offset hcause
  | behind token => exact .failBehind token offset hcause

theorem unexpected (h : known.Token) (expectation : Expectation) (found : Scriptlet.Token) :
    Composed inner known (Parser.unexpected expectation found : Parser α) :=
  .fail h (.unexpected _ _) _

/-- Behind the next token, which is taken, that token is known. -/
theorem next {rest : Scriptlet.Token → Parser α}
    (h : ∀ token, Composed inner (.behind token) (rest token)) :
    Composed inner .nothing (Parser.next >>= rest) := by
  unfold Parser.next
  rw [bind_assoc]
  refine .peek fun token => ?_
  rw [bind_assoc]
  exact .take (h token)

/-- Behind the next token, which is taken if it is of a kind, that token is known. -/
theorem bind_expect {kind : Kind} {expectation : Expectation} {rest : Scriptlet.Token → Parser α}
    (h : ∀ token, token.kind = kind → Composed inner (.behind token) (rest token)) :
    Composed inner .nothing (Parser.expect kind expectation >>= rest) := by
  unfold Parser.expect
  rw [bind_assoc]
  refine .peek fun token => ?_
  split
  · next hkind =>
    rw [bind_assoc]
    exact .take (h token hkind)
  · exact unexpected (.next token) expectation token

theorem expect (kind : Kind) (expectation : Expectation) :
    Composed inner .nothing (Parser.expect kind expectation) := by
  have h : Composed inner .nothing (Parser.expect kind expectation >>= Pure.pure) :=
    bind_expect fun token _ => .unaware (.pure token)
  rwa [bind_pure] at h

/-- Behind a token that is taken if it is of a kind, that token is known. -/
theorem bind_next? {kind : Kind} {deep : Prop} {rest : Option Scriptlet.Token → Parser α}
    (hlooks : known.Looks deep) (hnone : Composed inner .nothing (rest none))
    (hstalls : (rest none).Stalls deep)
    (hsome : ∀ token, Composed inner (.behind token) (rest (some token))) :
    Composed inner known (Parser.next? kind >>= rest) := by
  unfold Parser.next?
  rw [bind_assoc]
  refine .peek? hlooks ?_ ?_ fun token => ?_
  · exact hnone
  · exact hstalls
  · dsimp only
    split
    · rw [bind_assoc]
      exact .take (hsome token)
    · exact .unaware hnone

theorem next? (kind : Kind) : Composed inner .nothing (Parser.next? kind) := by
  have h : Composed inner .nothing (Parser.next? kind >>= Pure.pure) :=
    bind_next? .nothing (.pure none) (.pure none) fun token => .unaware (.pure (some token))
  rwa [bind_pure] at h

/-- What is made of a span makes a composed parser. -/
theorem make (start : Nat) (make : Span → α) :
    Composed inner known (Parser.spanFrom start >>= fun span => Pure.pure (make span)) :=
  .unaware (.bind (.spanFrom start) (fun _ => .pure _) fun _ => .pure _)

/-- What follows parts that are read again knows what was known, because reading them again takes
no token. -/
theorem bind_rebound (h : known.Token) {result : Except Violation α} {rest : α → Parser β}
    (hrest : ∀ value, Composed inner known (rest value)) :
    Composed inner known (Level.rebound result >>= rest) := by
  cases result with
  | ok value => exact hrest value
  | error violation => exact .fail h (.notRebindable _) violation.span.offset

/-- A list is composed when its first item is, and after each item the next one. -/
theorem many {item? : Parser (Option α)}
    (hadvances : ∀ {here item there}, item?.CanGive here (some item) there →
      there.cursor.rest.length < here.cursor.rest.length)
    (h : Composed inner known item?)
    (hmore : ∀ {here item there}, item?.CanGive here (some item) there →
      Composed inner .nothing item? ∧ item?.Stalls False) :
    Composed inner known (Parser.many item?) := by
  have hgiven {items next : List α} {here there : Place}
      (hround : (listing item? items).CanGive here (.again next) there) :
      ∃ item middle, item?.CanGive here (some item) middle := by
    obtain ⟨item?, middle, hitem, hrest⟩ := hround.bind
    cases item? with
    | some item => exact ⟨item, middle, hitem⟩
    | none => cases hrest.pure.1
  have hstep {known : Known} (items : List α) (h : Composed inner known item?) :
      Composed inner known (listing item? items) := by
    refine .bind h (fun item => ?_) fun item => ?_ <;> cases item
    · exact .pure _
    · exact .pure _
    · exact .pure _
    · exact .pure _
  refine .repeated [] (advances_many hadvances) (hstep [] h) ?_ ?_
  · intro items next here there hround
    obtain ⟨_, _, hitem⟩ := hgiven hround
    exact hstep next (hmore hitem).1
  · intro items next here there hround
    obtain ⟨_, _, hitem⟩ := hgiven hround
    refine .bind (hmore hitem).2 fun item => ?_
    cases item <;> exact .pure _

/-- A list between brackets is composed when its items are; behind an opening bracket it may start
with an item that gives up. -/
theorem separated {item : Parser α} {deep : Prop} (separator : Expectation)
    (hlooks : known.Looks deep)
    (hle : ∀ {here value there}, item.CanGive here value there →
      there.cursor.rest.length ≤ here.cursor.rest.length)
    (h : Composed inner .nothing item) (hstalls : item.Stalls deep)
    (hmore : ∀ {here value there}, item.CanGive here value there → item.Stalls False) :
    Composed inner known (Parser.separated item separator) := by
  refine .bind_next? hlooks (.repeated [] (advances_separated hle) ?_ ?_ ?_)
    (.repeated (advances_separated hle) (.bind hstalls fun value => .bind_next _))
    fun token => .unaware (.pure [])
  case refine_3 =>
    intro items next here there hround
    obtain ⟨value, _, hitem, -⟩ := hround.bind
    exact .bind (hmore hitem) fun value => .bind_next _
  all_goals
    intros
    refine .bind h (fun value => .next fun token => ?_) fun value => .bind_next _
    split
    · exact .unaware (.pure _)
    · exact .unaware (.pure _)
    · exact .unexpected (.behind token) _ _

/-! ## The parts of the grammar that ask no level -/

theorem declaredName (expectation : Expectation) :
    Composed inner .nothing (Level.declaredName expectation) := by
  refine .next fun token => ?_
  split
  · split
    · exact .fail (.behind token) (.reservedName _) _
    · exact .unaware (.pure _)
  · exact .unexpected (.behind token) _ _

theorem shorthand? (key : ObjectKey) : Composed inner .nothing (Level.shorthand? key) := by
  unfold Level.shorthand?
  split
  · refine .peek fun token => ?_
    split <;> exact .unaware (.pure _)
  · exact .pure _

/-- The redundant semicolons behind a statement. -/
theorem semicolons : Composed inner .nothing (Parser.many (Parser.next? .semicolon)) :=
  .many length_lt_of_next? (.next? _) fun _ => ⟨.next? _, .bind_peek? (.pure none)⟩

end Composed

/-! ## The parts of the grammar that ask the level below -/

/-- What is known of a key stalls at the end of the text. -/
theorem stalls_shorthand? (key : ObjectKey) : (Level.shorthand? key).Stalls False := by
  unfold Level.shorthand?
  split
  · exact .bind_peek _
  · exact .pure _

namespace Level

section

variable (below : Level)

theorem composed_slot (mode : Mode) : Composed below.Has .nothing (below.slot mode) :=
  .spanned _ (.expr mode)

theorem composed_objectKey (first : Token) :
    Composed below.Has (.behind first) (below.objectKey first) := by
  unfold Level.objectKey
  split
  · exact .unaware (.bind (below.composed_slot .plain)
      (fun _ => .bind (.expect _ _) (fun _ => .pure _) fun _ => .pure _)
      fun _ => .bind_expect _ _ _)
  · exact .unaware (.pure _)
  · exact .unaware (.pure _)
  · exact .unaware (.pure _)
  · exact .unexpected (.behind first) _ _

theorem composed_objectField : Composed below.Has .nothing below.objectField := by
  refine .next fun first => .bind (below.composed_objectKey first)
    (fun key => .bind (.shorthand? key) (fun value => ?_) fun value => ?_)
    fun key => .bind (stalls_shorthand? key) fun value => ?_
  · split
    · exact .make _ _
    · exact .bind_expect fun _ _ => .unaware
        (.bind (below.composed_slot .item) (fun _ => .make _ _) fun _ => .make _ _)
  all_goals
    split
    · exact .make _ _
    · exact .bind_expect _ _ _

theorem stalls_objectField? : below.objectField?.Stalls False :=
  .bind_next? (.bind (.bind_next _) fun _ => .bind_peek _)

theorem composed_objectField? : Composed below.Has .nothing below.objectField? := by
  refine .bind_next? .nothing
    (.bind below.composed_objectField (fun field => .peek fun token => ?_) fun _ => .bind_peek _)
    (.bind (.bind_next _) fun _ => .bind_peek _) fun close => .unaware (.pure _)
  split
  · exact .take (.unaware (.pure _))
  · exact .unaware (.pure _)
  · exact .unexpected (.next token) _ _

theorem composed_initializer? (modifier : Modifier) :
    Composed below.Has .nothing (below.initializer? modifier) := by
  refine .next fun token => ?_
  split
  · exact .unaware (.bind (below.composed_slot .plain)
      (fun _ => .bind (.expect _ _) (fun _ => .pure _) fun _ => .pure _)
      fun _ => .bind_expect _ _ _)
  · split
    · exact .unexpected (.behind token) _ _
    · split
      · exact .unaware (.pure _)
      · exact .unexpected (.behind token) _ _

theorem composed_variableDeclaration (keyword : Token) (modifier : Modifier) :
    Composed below.Has (.next keyword) (below.variableDeclaration keyword modifier) :=
  .take (.unaware (.bind (.declaredName _)
    (fun _ => .bind (below.composed_initializer? modifier)
      (fun _ => .bind (.note (.variable _ _ _)) (fun _ => .make _ _) fun _ => .make _ _)
      fun _ => .bind (.note _) fun _ => .make _ _)
    fun _ => .bind (.bind_next _) fun _ => .bind (.note _) fun _ => .make _ _))

theorem composed_expressionStatement : Composed below.Has .nothing below.expressionStatement :=
  .bind (below.composed_slot .plain)
    (fun _ => .bind (.expect _ _) (fun _ => .pure _) fun _ => .pure _) fun _ => .bind_expect _ _ _

end

/-! ## The parts of the grammar that may ask for nothing -/

/-- A round of a chain is over at the end of the text. -/
theorem stalls_link (below : Level) (start : Nat) (mode : Mode) (node : Expr) :
    (below.link start mode node).Stalls False :=
  .bind_peek? (.pure _)

namespace Grammatical

variable {below : Level} (h : below.Grammatical)

include h

theorem stalls_chain (start : Nat) (mode : Mode) (node : Expr) :
    (below.chain start mode node).Stalls False :=
  .repeated (h.advances_link start mode) (below.stalls_link start mode node)

variable (hresolute : below.Resolute)

include hresolute

theorem composed_block : Composed below.Has .nothing below.block := by
  have hnone : Composed below.Has .nothing
      (below.statement >>= fun statement => pure (some statement)) :=
    .bind (.inner .statement) (fun _ => .pure _) fun _ => .pure _
  refine .bind_expect fun brace hkind => .bind (.many h.length_lt_of_blockStatement? ?_ ?_)
    (fun _ => .make _ _) fun _ => .make _ _
  · exact .bind_next? (.behind (by rw [hkind]; rfl)) hnone
      (.bind hresolute.statement.stalls fun _ => .pure _) fun close => .unaware (.pure _)
  -- Where a statement is given, the level does not give up, so none does at the end of the text.
  · intro here item there hgiven
    obtain ⟨close?, _, -, hrest⟩ := hgiven.bind
    split at hrest
    · cases hrest.pure.1
    · obtain ⟨_, _, hstatement, -⟩ := hrest.bind
      have hstalls : (below.statement >>= fun statement => pure (some statement)).Stalls False :=
        .bind (hresolute.statement.stalls_of_canGive hstatement) fun _ => .pure _
      exact ⟨.bind_next? .nothing hnone hstalls fun close => .unaware (.pure _),
        .bind_next? hstalls⟩

theorem composed_arguments {bracket : Token} (hkind : bracket.kind = .openRound) :
    Composed below.Has (.behind bracket) below.arguments :=
  .separated _ (.behind (by rw [hkind]; rfl)) h.length_le_of_slot (below.composed_slot .item)
    (hresolute.slot .item).stalls (hresolute.slot .item).stalls_of_canGive

theorem composed_link (start : Nat) (mode : Mode) (node : Expr) :
    Composed below.Has .nothing (below.link start mode node) := by
  refine .peek? .nothing (.pure _) (.pure _) fun token => ?_
  dsimp only
  split
  · exact .unaware (.pure _)
  · exact .unaware (.pure _)
  · exact .unaware (.pure _)
  · exact .unaware (.pure _)
  · split
    · exact .unaware (.pure _)
    · exact .take (.unaware (.bind (.inner (.expr mode)) (fun _ => .make _ _) fun _ => .make _ _))
  · exact .take (.make _ _)
  · exact .take (.unaware (.bind (below.composed_slot .plain)
      (fun _ => .bind (.expect _ _) (fun _ => .make _ _) fun _ => .make _ _)
      fun _ => .bind_expect _ _ _))
  · next hkind =>
    exact .take (.bind (h.composed_arguments hresolute hkind)
      (fun _ => .make _ _) fun _ => .make _ _)
  · split
    · split
      · exact .take (.unaware
          (.bind (below.composed_slot .item) (fun _ => .make _ _) fun _ => .make _ _))
      · exact .unexpected (.next token) _ _
    · exact .unexpected (.next token) _ _
  · exact .unexpected (.next token) _ _

theorem composed_chain (start : Nat) (mode : Mode) (node : Expr) :
    Composed below.Has .nothing (below.chain start mode node) :=
  .repeated node (h.advances_link start mode) (h.composed_link hresolute start mode node)
    (fun _ => h.composed_link hresolute start mode _) fun _ => below.stalls_link start mode _

omit hresolute in
theorem composed_object (brace : Token) :
    Composed below.Has (.next brace) (below.object brace) := by
  refine .take (.unaware (.bind (.many h.length_lt_of_objectField? below.composed_objectField?
      fun _ => ⟨below.composed_objectField?, below.stalls_objectField?⟩)
    (fun fields => .bind (.spanFrom _) (fun span => ?_) fun span => .bind_next? (.pure _))
    fun fields => .bind (.spanFrom _) fun span => .bind_next? (.pure _)))
  refine .bind_next? .nothing (.pure _) (.pure _) fun assign => ?_
  exact .bind_rebound (.behind assign) fun target =>
    .unaware (.bind (below.composed_slot .item) (fun _ => .make _ _) fun _ => .make _ _)

theorem composed_arrowFunction (parameters : Parameters) {arrow : Token}
    (hkind : arrow.kind = .arrow) (mode : Mode) :
    Composed below.Has (.next arrow) (below.arrowFunction parameters arrow mode) := by
  have hexpression : Composed below.Has .nothing (do
      let body ← below.slot mode.value
      return .arrow parameters (.expression body) (← spanFrom parameters.span.offset) :
        Parser Expr) :=
    .bind (below.composed_slot mode.value) (fun _ => .make _ _) fun _ => .make _ _
  refine .take (.peek? (.behind (by rw [hkind]; rfl)) hexpression
    (.bind (hresolute.slot mode.value).stalls fun _ => .make _ _) fun token => .unaware ?_)
  split
  · exact .bind (h.composed_block hresolute)
      (fun _ => .bind (.spanFrom _) (fun _ => h.composed_chain hresolute _ _ _)
        fun _ => h.stalls_chain _ _ _)
      fun _ => .bind (.spanFrom _) fun _ => h.stalls_chain _ _ _
  · exact hexpression

theorem composed_emptyGroup (group : Span) (mode : Mode) :
    Composed below.Has .nothing (below.emptyGroup group mode) := by
  refine .peek fun arrow => ?_
  split
  · next hkind => exact h.composed_arrowFunction hresolute _ hkind mode
  · exact .unexpected (.next arrow) _ _

theorem composed_filledGroup (content : Expr) (group : Span) (mode : Mode) :
    Composed below.Has .nothing (below.filledGroup content group mode) := by
  have hchain := h.composed_chain hresolute group.offset mode content
  refine .peek? .nothing hchain (h.stalls_chain _ _ _) fun token => ?_
  split
  · next kind text span heq =>
    cases heq
    exact .bind_rebound (.next _) fun parameters =>
      h.composed_arrowFunction hresolute parameters rfl mode
  · exact .unaware hchain

theorem composed_group {bracket : Token} (hkind : bracket.kind = .openRound) (mode : Mode) :
    Composed below.Has (.next bracket) (below.group bracket mode) := by
  refine .take (.bind_next? (.behind (by rw [hkind]; rfl)) ?_
    (.bind (hresolute.expr .group).stalls fun content => .bind_expect _ _ _)
    fun close => .unaware (h.composed_emptyGroup hresolute _ mode))
  exact .bind (.inner (.expr .group))
    (fun content => .bind (.expect _ _)
      (fun close => h.composed_filledGroup hresolute content _ mode)
      fun close => .bind_peek? (h.stalls_chain _ _ _))
    fun content => .bind_expect _ _ _

theorem composed_expression (mode : Mode) :
    Composed below.Has .nothing (below.expression mode) := by
  refine .peek fun token => ?_
  dsimp only
  split
  · exact .take (.unaware (h.composed_chain hresolute _ _ _))
  · exact .take (.unaware (h.composed_chain hresolute _ _ _))
  · exact .take (.unaware (h.composed_chain hresolute _ _ _))
  · exact .bind (h.composed_object token) (fun _ => h.composed_chain hresolute _ _ _)
      fun _ => h.stalls_chain _ _ _
  · next hkind => exact h.composed_group hresolute hkind mode
  · exact .unexpected (.next token) _ _

theorem composed_functionDeclaration (keyword : Token) :
    Composed below.Has (.next keyword) (below.functionDeclaration keyword) := by
  have hbody (name : Name) (parameters : List Name) : Composed below.Has .nothing (do
      let block ← below.block
      note (.functionDeclared name.text parameters.length block.1.length)
      return .functionDeclaration name parameters block.1 (← spanFrom keyword.span.offset) :
        Parser Statement) :=
    .bind (h.composed_block hresolute)
      (fun _ => .bind (.note (.function _ _ _)) (fun _ => .make _ _) fun _ => .make _ _)
      fun _ => .bind (.note _) fun _ => .make _ _
  have hparameters {bracket : Token} (hkind : bracket.kind = .openRound) :
      Composed below.Has (.behind bracket)
        (separated (declaredName .parameterName) .parameterSeparator) :=
    .separated _ (.behind (by rw [hkind]; rfl)) length_le_of_declaredName (.declaredName _)
      (.bind_next _) fun _ => .bind_next _
  exact .take (.unaware (.bind (.declaredName _)
    (fun name => .bind_expect fun _ hkind => .bind (hparameters hkind) (hbody name)
      fun _ => .bind (.bind_expect _ _ _) fun _ => .bind (.note _) fun _ => .make _ _)
    fun _ => .bind_expect _ _ _))

theorem composed_statementBody : Composed below.Has .nothing below.statementBody := by
  refine .peek fun token => ?_
  split
  · split
    · exact below.composed_variableDeclaration token _
    · split
      · exact h.composed_functionDeclaration hresolute token
      · split
        · exact .fail (.next token) (.unsupportedStatement _) _
        · exact .unaware (below.composed_expressionStatement)
  · exact .unaware (below.composed_expressionStatement)

omit hresolute in
/-- The statements of a program. -/
theorem composed_statements : Composed below.Has .nothing below.statements := by
  have hitem : Composed below.Has .nothing (do
      if ← atEnd then return none else return some (← below.statement) :
        Parser (Option Statement)) := by
    refine .atEnd (fun ended => ?_) (.pure _)
    split
    · exact .pure _
    · exact .bind (.inner .statement) (fun _ => .pure _) fun _ => .pure _
  exact .many h.length_lt_of_statement? hitem fun _ => ⟨hitem, .bind_atEnd (.pure _)⟩

end Grammatical

end Level

end Scriptlet
