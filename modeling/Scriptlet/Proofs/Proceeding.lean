import Scriptlet.Proofs.Spans
import Scriptlet.Proofs.Steps

/-!
# Every run proceeds

No run of the parser goes back. Whether it gives a value or fails, it ends where reading some tokens
from its start leads to. The parsers of what holds at least one token leave the cursor further on
when they give a value, and so does every round of a loop that is not its last; hence a loop has no
more rounds than there are characters left, and one more, whatever bound it is run with.
-/

namespace Scriptlet

open Scriptlet.Parser

/-- Reading tokens leads further on. -/
theorem Reads.offset_lt {here there : Place} {tokens : List Token} (h : Reads here tokens there)
    (hne : tokens ≠ []) : here.cursor.offset < there.cursor.offset := by
  cases h with
  | nil => exact absurd rfl hne
  | @cons _ token tokens _ hnext hrest =>
      calc here.cursor.offset
        _ = token.span.offset := hnext.offset_eq.symm
        _ < token.span.stop := hnext.nonempty
        _ ≤ (here.past token).cursor.offset := Nat.le_add_right _ _
        _ ≤ there.cursor.offset := hrest.offset_le

/-! ## The functions of the parser -/

/-- The functions of the parser, with a level below them, as they are called at a place: where one
is given the token to go on with, that token is next. -/
inductive Level.Call (below : Level) (here : Place) : {α : Type} → Parser α → Prop where
  | peek? : Call below here peek?
  | peek : Call below here peek
  | next : Call below here next
  | expect (kind expectation) : Call below here (expect kind expectation)
  | next? (kind) : Call below here (next? kind)
  | take {token} : here.Next token → Call below here (take token)
  | statements : Call below here below.statements
  | statement : Call below here below.statement
  | statementBody : Call below here below.statementBody
  | variableDeclaration {keyword} (modifier) :
      here.Next keyword → Call below here (below.variableDeclaration keyword modifier)
  | initializer? (modifier) : Call below here (below.initializer? modifier)
  | functionDeclaration {keyword} :
      here.Next keyword → Call below here (below.functionDeclaration keyword)
  | declaredName (expectation) : Call below here (declaredName expectation)
  | expressionStatement : Call below here below.expressionStatement
  | block : Call below here below.block
  | slot (mode) : Call below here (below.slot mode)
  | expr (mode) : Call below here (below.expr mode)
  | expression (mode) : Call below here (below.expression mode)
  | chain (start mode node) : Call below here (below.chain start mode node)
  | link (start mode node) : Call below here (below.link start mode node)
  | arguments : Call below here below.arguments
  | object {brace} : here.Next brace → Call below here (below.object brace)
  | objectField? : Call below here below.objectField?
  | objectField : Call below here below.objectField
  | objectKey (first) : Call below here (below.objectKey first)
  | shorthand? (key) : Call below here (shorthand? key)
  | group {bracket} (mode) : here.Next bracket → bracket.kind = .openRound →
      Call below here (below.group bracket mode)
  | emptyGroup (span mode) : Call below here (below.emptyGroup span mode)
  | filledGroup (content span mode) : Call below here (below.filledGroup content span mode)
  | arrowFunction {arrow} (parameters mode) : here.Next arrow → arrow.kind = .arrow →
      Call below here (below.arrowFunction parameters arrow mode)

namespace Level

variable {below : Level} {height : Nat} {here : Place}

/-- Every function of the parser goes step by step from where it is called, and has no more levels
to open than are below it. -/
theorem Call.leads (hgrammatical : below.Grammatical) (hresolute : below.Resolute)
    (hproceeds : below.Proceeds height) {α : Type} {parser : Parser α} {state : ParseState}
    (h : below.Call state.place parser) :
    state.Leads (state.depth + height) (finish (parser state)) := by
  have leads {α : Type} {known : Known} {parser : Parser α}
      (hcomposed : Composed below.Has known parser) (taken : List Token)
      (hknown : known.At taken state.place) :=
    hcomposed.proceeds hproceeds.of_has taken state hknown
  have anywhere {α : Type} {parser : Parser α} (h : parser.Proceeds height .nothing) :=
    h [] state trivial
  -- What stands behind a token is called with that token taken.
  let bracket : Token := ⟨.openRound, "(", ⟨0, 1⟩⟩
  have behind (token : Token) : (Known.behind token).At [token] state.place := rfl
  cases h with
  | peek? => exact anywhere .peek?
  | peek => exact anywhere .peek
  | next => exact anywhere .next
  | expect kind expectation => exact leads (.expect kind expectation) [] trivial
  | next? kind => exact leads (.next? kind) [] trivial
  | take hnext => exact .took hnext
  | statements => exact leads hgrammatical.composed_statements [] trivial
  | statement => exact leads (.inner .statement) [] trivial
  | statementBody => exact leads (hgrammatical.composed_statementBody hresolute) [] trivial
  | variableDeclaration modifier hnext =>
      exact leads (below.composed_variableDeclaration _ modifier) [] hnext
  | initializer? modifier => exact leads (below.composed_initializer? modifier) [] trivial
  | functionDeclaration hnext =>
      exact leads (hgrammatical.composed_functionDeclaration hresolute _) [] hnext
  | declaredName expectation => exact leads (.declaredName expectation) [] trivial
  | expressionStatement => exact leads below.composed_expressionStatement [] trivial
  | block => exact leads (hgrammatical.composed_block hresolute) [] trivial
  | slot mode => exact leads (below.composed_slot mode) [] trivial
  | expr mode => exact leads (.inner (.expr mode)) [] trivial
  | expression mode => exact leads (hgrammatical.composed_expression hresolute mode) [] trivial
  | chain start mode node =>
      exact leads (hgrammatical.composed_chain hresolute start mode node) [] trivial
  | link start mode node =>
      exact leads (hgrammatical.composed_link hresolute start mode node) [] trivial
  | arguments =>
      have harguments : Composed below.Has (.behind bracket) below.arguments :=
        hgrammatical.composed_arguments hresolute rfl
      exact leads harguments _ (behind bracket)
  | object hnext => exact leads (hgrammatical.composed_object _) [] hnext
  | objectField? => exact leads below.composed_objectField? [] trivial
  | objectField => exact leads below.composed_objectField [] trivial
  | objectKey first => exact leads (below.composed_objectKey first) _ (behind first)
  | shorthand? key => exact leads (.shorthand? key) [] trivial
  | group mode hnext hkind =>
      exact leads (hgrammatical.composed_group hresolute hkind mode) [] hnext
  | emptyGroup span mode =>
      exact leads (hgrammatical.composed_emptyGroup hresolute span mode) [] trivial
  | filledGroup content span mode =>
      exact leads (hgrammatical.composed_filledGroup hresolute content span mode) [] trivial
  | arrowFunction parameters mode hnext hkind =>
      exact leads (hgrammatical.composed_arrowFunction hresolute parameters hkind mode) [] hnext

/-- No function of the parser ends before the place that it is called at. -/
theorem Call.reads (hgrammatical : below.Grammatical) (hresolute : below.Resolute)
    (hproceeds : below.Proceeds height) {α : Type} {parser : Parser α} {state : ParseState}
    (h : below.Call state.place parser) :
    ∃ tokens, Reads state.place tokens (finish (parser state)).place :=
  ParseState.reads_of_steps (h.leads hgrammatical hresolute hproceeds).steps

/-- The functions of the parser that take a token whenever they give a value. -/
inductive Takes (below : Level) (here : Place) : {α : Type} → Parser α → Prop where
  | statement : Takes below here below.statement
  | expr (mode) : Takes below here (below.expr mode)
  | objectField : Takes below here below.objectField
  | object {brace} : here.Next brace → brace.kind = .openCurly →
      Takes below here (below.object brace)
  | block : Takes below here below.block

/-- A run that gives a value has read the tokens that the value is derived from. -/
theorem Takes.reads (hgrammatical : below.Grammatical) {α : Type} {parser : Parser α}
    {state stop : ParseState} {value : α} (h : below.Takes state.place parser)
    (hrun : parser state = .ok value stop) :
    ∃ tokens, tokens ≠ [] ∧ Reads state.place tokens stop.place := by
  obtain ⟨phrases, hsound, hopens⟩ := hgrammatical
  have hgiven : parser.CanGive state.place value stop.place := ⟨state, stop, rfl, rfl, hrun⟩
  cases h with
  | statement =>
      obtain ⟨tokens, hreads, hderived, -⟩ := hsound.statement hgiven
      exact ⟨tokens, (hopens.statement hderived).ne_nil, hreads⟩
  | expr mode =>
      obtain ⟨tokens, hreads, hderived, -⟩ := hsound.expr hgiven
      exact ⟨tokens, (hopens.expr hderived).ne_nil, hreads⟩
  | objectField =>
      obtain ⟨tokens, hreads, hderived⟩ := hsound.objectField hopens hgiven
      exact ⟨tokens, hderived.ne_nil, hreads⟩
  | object hnext hkind =>
      rcases hsound.object hopens hnext hkind hgiven with
        ⟨tokens, hreads, hderived⟩ | ⟨tokens, _, _, assign, more, _, hreads, -⟩
      · exact ⟨tokens, hderived.opening.ne_nil, hreads⟩
      · exact ⟨tokens ++ assign :: more, by simp, hreads⟩
  | block =>
      obtain ⟨tokens, hreads, hderived, -⟩ := hsound.block hgiven
      exact ⟨tokens, hderived.ne_nil, hreads⟩

end Level

/-! ## Rounds of loops -/

namespace Parser

variable {α β : Type}

/-- The rounds of a list between commas: each puts an item before those it has. -/
def separating (item : Parser α) (separator : Expectation) (items : List α) :
    Parser (Round (List α) (List α)) := do
  let items := (← item) :: items
  let token ← next
  match token.kind with
  | .comma => return .again items
  | .closeRound => return .done items.reverse
  | _ => unexpected separator token

/-- The two lists of the grammar are loops over these rounds. -/
example (item? : Parser (Option α)) (item : Parser α) (separator : Expectation) :
    many item? = repeated (listing item?) [] ∧
      separated item separator = (do
        if (← next? .closeRound).isSome then return []
        else repeated (separating item separator) []) :=
  ⟨rfl, rfl⟩

/-- A loop that nothing bounds comes to its end in so many rounds: the last one gives the result or
fails, every other one goes on. -/
inductive LoopRuns (step : α → Parser (Round α β)) :
    Nat → α → ParseState → EStateM.Result Failure ParseState β → Prop where
  | done {value state result stop} :
      step value state = .ok (.done result) stop → LoopRuns step 1 value state (.ok result stop)
  | error {value state failure stop} :
      step value state = .error failure stop → LoopRuns step 1 value state (.error failure stop)
  | again {count value state next reached outcome} :
      step value state = .ok (.again next) reached → LoopRuns step count next reached outcome →
      LoopRuns step (count + 1) value state outcome

/-- Every round but the last takes a token, so characters bound the rounds. -/
theorem repeated_loopRuns {step : α → Parser (Round α β)} (hadvances : Advances step) (value : α)
    (state : ParseState) :
    ∃ count ≤ state.cursor.rest.length + 1,
      LoopRuns step count value state (repeated step value state) := by
  induction hlength : state.cursor.rest.length using Nat.strongRecOn generalizing value state with
  | ind length ih =>
      rw [repeated_run hadvances]
      cases hrun : step value state with
      | error failure stop => exact ⟨1, Nat.le_add_left 1 length, .error hrun⟩
      | ok round reached =>
          cases round with
          | done result => exact ⟨1, Nat.le_add_left 1 length, .done hrun⟩
          | again next =>
              have hlt := hlength ▸ hadvances.length_lt hrun
              obtain ⟨count, hcount, hruns⟩ := ih _ hlt next reached rfl
              exact ⟨count + 1, by omega, .again hrun hruns⟩

end Parser

namespace Level

/-- The loops of the parser, by their rounds. -/
inductive Loop (below : Level) : {α β : Type} → (α → Parser (Round α β)) → Prop where
  | statements : Loop below (listing do
      if ← atEnd then return none else return some (← below.statement))
  | block : Loop below (listing do
      if (← next? .closeCurly).isSome then return none else return some (← below.statement))
  | semicolons : Loop below (listing (next? .semicolon))
  | fields : Loop below (listing below.objectField?)
  | arguments : Loop below (separating (below.slot .item) .argumentSeparator)
  | parameters : Loop below (separating (declaredName .parameterName) .parameterSeparator)
  | chain (start mode) : Loop below (below.link start mode)

/-- Every round of a loop takes a token if it is not the last. -/
theorem Loop.advances {below : Level} (hgrammatical : below.Grammatical) {α β : Type}
    {step : α → Parser (Round α β)} (h : below.Loop step) : Advances step := by
  cases h with
  | statements => exact advances_many hgrammatical.length_lt_of_statement?
  | block => exact advances_many hgrammatical.length_lt_of_blockStatement?
  | semicolons => exact advances_many length_lt_of_next?
  | fields => exact advances_many hgrammatical.length_lt_of_objectField?
  | arguments => exact advances_separated hgrammatical.length_le_of_slot
  | parameters => exact advances_separated length_le_of_declaredName
  | chain start mode => exact hgrammatical.advances_link start mode

end Level

end Scriptlet
