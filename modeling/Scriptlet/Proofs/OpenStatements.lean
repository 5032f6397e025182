import Mathlib
import Scriptlet.Proofs.Composition
import Scriptlet.Proofs.Reports

/-!
# The statements that are open

A statement is open from where the parser is called for it until its own last token is taken. The
journal of a parse tells so, and it is faithful: a construct starts at the cursor, and a statement
is closed when its last token has been taken. A statement that a failure leaves open is one that the
text does not complete with the levels that are left. The failure names the innermost of these. It
names none only if none is open, and then it is the fault behind the statements up to there.
-/

namespace Scriptlet

open Scriptlet.Parser

variable {text : List Char} {here there : Place} {tokens more : List Token} {token : Token}
  {state : ParseState} {event : Event} {known : Known}

/-! ## What a journal tells of constructs -/

/-- The start of an open construct, if it is a statement. -/
def Construct.statementStart? : Construct × Nat → Option Nat
  | (.statement, start) => some start
  | (.expression, _) => none

/-- The statements that are open after the events of a journal, by their starts, the innermost
first. -/
def Event.openStatements (journal : List Event) : List Nat :=
  (openConstructs journal).filterMap Construct.statementStart?

/-- The last of some tokens is the last token of a statement that starts at an offset. -/
def StatementEnds (start : Nat) (tokens : List Token) : Prop :=
  ∃ before body height statement, tokens = before ++ body ∧ startOf body = start ∧
    (Phrases.ofHeight height).IsBody body statement

/-- What an event tells of constructs is so, with the text read by the tokens of the events before:
a construct starts at the cursor, and a statement is complete when its own last token is taken. -/
def Event.Holds (text : List Char) (earlier : List Event) : Event → Prop
  | .opened _ start =>
    ∃ here, Reads (.start text) (tokensTaken earlier) here ∧ here.cursor.offset = start
  | .closed =>
    ∀ start outer, openConstructs earlier = (.statement, start) :: outer →
      StatementEnds start (tokensTaken earlier)
  | _ => True

/-- What a journal tells of constructs is so. -/
def Event.Faithful (text : List Char) : List Event → Prop
  | [] => True
  | event :: earlier => event.Holds text earlier ∧ Faithful text earlier

/-- No statement with so many levels stands at an offset that reading the text comes to. -/
def NoStatement (text : List Char) (levels start : Nat) : Prop :=
  ∃ before here, Reads (.start text) before here ∧ here.cursor.offset = start ∧
    ∀ tokens statement there, Reads here tokens there →
      ¬ (Phrases.ofHeight levels).statement tokens statement

/-- Of some open constructs, the innermost first, no statement can be completed with the levels that
are left for it: those that the constructs around it do not take. -/
def Unfinished (text : List Char) (levels : Nat) : List (Construct × Nat) → Prop
  | [] => True
  | (kind, start) :: outer =>
    (kind = .statement → ∀ left, left + outer.length + 1 = levels → NoStatement text left start) ∧
      Unfinished text levels outer

/-- One more construct around them takes one more level. -/
theorem Unfinished.concat {levels start : Nat} {kind : Construct} {inner : List (Construct × Nat)}
    (h : Unfinished text levels inner)
    (hlast : kind = .statement → NoStatement text levels start) :
    Unfinished text (levels + 1) (inner ++ [(kind, start)]) := by
  induction inner with
  | nil =>
      refine ⟨fun hkind left hleft => ?_, trivial⟩
      obtain rfl : left = levels := Nat.succ.inj hleft
      exact hlast hkind
  | cons entry outer ih =>
      refine ⟨fun hkind left hleft => h.1 hkind left ?_, ih h.2⟩
      have hlength : left + (outer ++ [(kind, start)]).length + 1 = levels + 1 := hleft
      rw [List.length_append, List.length_singleton] at hlength
      omega

/-- A failure tells of the constructs that are open: the innermost statement, and that none of the
statements can be completed. -/
structure Failure.TellsOf (failure : Failure) (text : List Char) (levels : Nat)
    (opened : List (Construct × Nat)) : Prop where
  innermost : failure.statement = opened.findSome? Construct.statementStart?
  unfinished : Unfinished text levels opened

/-- The journal of a state records how reading the text has come to the state. -/
structure ParseState.Records (state : ParseState) (text : List Char) : Prop where
  reading : state.Reading text
  faithful : Event.Faithful text state.journal

namespace ParseState.Records

theorem start (text : List Char) : (ParseState.start text).Records text :=
  ⟨.nil _, trivial⟩

variable (h : state.Records text)

include h

theorem took (hnext : state.place.Next token) : (state.took token).Records text where
  reading := by
    show Reads _ (tokensTaken (.token token :: state.journal)) _
    rw [tokensTaken_token]
    exact h.reading.append (.single hnext)
  faithful := ⟨trivial, h.faithful⟩

theorem noted (htoken : event.token? = none) (hholds : event.Holds text state.journal) :
    (state.noted event).Records text where
  reading := by
    show Reads _ (tokensTaken (event :: state.journal)) _
    rw [tokensTaken_other htoken]
    exact h.reading
  faithful := ⟨hholds, h.faithful⟩

theorem opened (kind : Construct) :
    (state.noted (.opened kind state.cursor.offset)).Records text :=
  h.noted rfl ⟨state.place, h.reading, rfl⟩

end ParseState.Records

/-- From one place to another only one list of tokens leads. -/
theorem Reads.tokens_unique (h : Reads here tokens there) (hmore : Reads here more there) :
    tokens = more := by
  induction h generalizing more with
  | nil here =>
      cases more with
      | nil => rfl
      | cons token more => exact absurd (hmore.length_lt (List.cons_ne_nil _ _)) (lt_irrefl _)
  | cons hnext hrest ih =>
      cases hmore with
      | nil =>
          have hless := (Reads.cons hnext hrest).length_lt (List.cons_ne_nil _ _)
          exact absurd hless (lt_irrefl _)
      | cons hother hmore =>
          obtain rfl := hnext.unique hother
          rw [ih hmore]

/-- A statement that reading has come through ends with the tokens taken. -/
theorem ParseState.Records.statementEnds {reached : ParseState} {height : Nat}
    {statement : Statement} (h : state.Records text) (hreached : reached.Records text)
    (hreads : Reads state.place tokens reached.place)
    (hbody : (Phrases.ofHeight height).IsBody tokens statement) :
    StatementEnds state.cursor.offset (tokensTaken reached.journal) := by
  have hopening := hbody.isStatement.opening (Phrases.opens_ofHeight height)
  exact ⟨_, tokens, height, statement, hreached.reading.tokens_unique (h.reading.append hreads),
    (hreads.offset_eq hopening.ne_nil).symm, hbody⟩

/-! ## Runs that account for what is open -/

/-- The end of a run over a text that may open constructs in so many levels and records what it
does. Nothing more is open if it gives a value. If it fails, the failure tells of what the run has
opened. -/
inductive Accounted (text : List Char) (levels : Nat) (start : ParseState) {α : Type} :
    EStateM.Result Failure ParseState α → Prop where
  | ok {value stop} :
      stop.Records text →
      Event.openConstructs stop.journal = Event.openConstructs start.journal →
      Accounted text levels start (.ok value stop)
  | error {failure stop} (inner) :
      Event.Faithful text stop.journal →
      Event.openConstructs stop.journal = inner ++ Event.openConstructs start.journal →
      failure.TellsOf text levels inner →
      Accounted text levels start (.error failure stop)

/-- Every run over a text from where the parser may start accounts for what is open. -/
def Parser.Accounts {α : Type} (text : List Char) (levels : Nat) (known : Known)
    (parser : Parser α) : Prop :=
  ∀ (taken : List Token) (state : ParseState), state.Records text → known.At taken state.place →
    Accounted text levels state (parser state)

namespace Accounted

variable {α β : Type} {levels : Nat}

/-- A run that goes on from a state where the same is open accounts for what it did before. -/
theorem of_reached {reached : ParseState} {outcome : EStateM.Result Failure ParseState α}
    (hopen : Event.openConstructs reached.journal = Event.openConstructs state.journal)
    (h : Accounted text levels reached outcome) : Accounted text levels state outcome := by
  cases h with
  | ok hstop hopen' => exact .ok hstop (hopen'.trans hopen)
  | error inner hstop hopen' htells => exact .error inner hstop (hopen ▸ hopen') htells

/-- A failure that names no statement where the run starts. -/
theorem fail {failure : Failure} (hrecords : state.Records text) (h : failure.statement = none) :
    Accounted text levels state (.error failure state : EStateM.Result Failure ParseState α) :=
  .error [] hrecords.faithful rfl ⟨h, trivial⟩

theorem bind {first : Parser α} {rest : α → Parser β}
    (hfirst : Accounted text levels state (first state))
    (hrest : ∀ value, (rest value).Accounts text levels .nothing) :
    Accounted text levels state ((first >>= rest) state) := by
  rw [bind_run]
  cases hrun : first state with
  | ok value reached =>
      rw [hrun] at hfirst
      cases hfirst with
      | ok hreached hopen => exact .of_reached hopen (hrest value [] reached hreached trivial)
  | error failure stop =>
      rw [hrun] at hfirst
      cases hfirst with
      | error inner hstop hopen htells => exact .error inner hstop hopen htells

end Accounted

namespace Parser.Accounts

variable {α β : Type} {levels : Nat} {parser : Parser α}

theorem unaware (h : parser.Accounts text levels .nothing) : parser.Accounts text levels known :=
  fun taken state hrecords _ => h taken state hrecords trivial

/-- A parser that leaves the state as it is opens nothing. -/
theorem stays (h : ∀ state, ∃ value, parser state = .ok value state) :
    parser.Accounts text levels known := by
  intro taken state hrecords _
  obtain ⟨value, hrun⟩ := h state
  exact hrun ▸ .ok hrecords rfl

/-- A parser that fails where it starts opens nothing. -/
theorem fails (h : ∀ state, ∃ failure, parser state = .error failure state ∧
    failure.statement = none) : parser.Accounts text levels known := by
  intro taken state hrecords _
  obtain ⟨failure, hrun, hnone⟩ := h state
  exact hrun ▸ .fail hrecords hnone

theorem bind {first : Parser α} {rest : α → Parser β} (hfirst : first.Accounts text levels known)
    (hrest : ∀ value, (rest value).Accounts text levels .nothing) :
    (first >>= rest).Accounts text levels known :=
  fun taken state hrecords hknown => (hfirst taken state hrecords hknown).bind hrest

theorem pure (value : α) : (Pure.pure value : Parser α).Accounts text levels known :=
  stays fun _ => ⟨value, rfl⟩

theorem fail (cause : Cause) (offset : Nat) :
    (Parser.fail cause offset : Parser α).Accounts text levels known :=
  fails fun _ => ⟨_, rfl, rfl⟩

theorem bind_peek? {rest : Option Token → Parser α}
    (hnone : (rest none).Accounts text levels .nothing)
    (hsome : ∀ token, (rest (some token)).Accounts text levels (.next token)) :
    (Parser.peek? >>= rest).Accounts text levels known := by
  intro taken state hrecords _
  rw [bind_run, peek?_run]
  cases hpeek : state.cursor.peek with
  | error failure =>
      obtain ⟨fault, rfl⟩ := Cursor.peek_eq_error hpeek
      exact .fail hrecords rfl
  | ok token? =>
      cases token? with
      | none => exact hnone [] state hrecords trivial
      | some token => exact hsome token [] state hrecords hpeek

theorem bind_peek {rest : Token → Parser α}
    (h : ∀ token, (rest token).Accounts text levels (.next token)) :
    (Parser.peek >>= rest).Accounts text levels known := by
  unfold Parser.peek
  rw [bind_assoc]
  exact bind_peek? (fails fun _ => ⟨_, rfl, rfl⟩) h

theorem bind_take {rest : Unit → Parser α} (h : (rest ()).Accounts text levels (.behind token)) :
    (Parser.take token >>= rest).Accounts text levels (.next token) := by
  intro taken state hrecords hnext
  refine .of_reached ?_ (h [token] (state.took token) (hrecords.took hnext) rfl)
  rfl

/-- A declaration that is noted opens nothing. -/
theorem note (h : event.Declares) : (Parser.note event).Accounts text levels known := by
  intro taken state hrecords _
  cases h <;> exact .ok (hrecords.noted rfl trivial) rfl

/-- A loop opens nothing that its rounds leave open. -/
theorem repeated {step : α → Parser (Round α β)} (hadvances : Advances step) {value : α}
    (hfirst : (step value).Accounts text levels known)
    (hnext : ∀ {value next here there}, (step value).CanGive here (.again next) there →
      (step next).Accounts text levels .nothing) :
    (Parser.repeated step value).Accounts text levels known := by
  intro taken state hrecords hknown
  induction hlength : state.cursor.rest.length using Nat.strongRecOn
    generalizing taken state value known with
  | ind length ih =>
      rw [repeated_run hadvances]
      have hround := hfirst taken state hrecords hknown
      cases hrun : step value state with
      | error failure stop =>
          rw [hrun] at hround
          cases hround with
          | error inner hstop hopen htells => exact .error inner hstop hopen htells
      | ok round reached =>
          rw [hrun] at hround
          cases hround with
          | ok hreached hopen =>
              cases round with
              | done result => exact .ok hreached hopen
              | again next =>
                  have hlt := hlength ▸ hadvances.length_lt hrun
                  exact .of_reached hopen (ih _ hlt (hnext ⟨state, reached, rfl, rfl, hrun⟩) []
                    reached hreached trivial rfl)

theorem within (h : parser.Accounts text levels known) :
    (Parser.within parser).Accounts text levels known := by
  intro taken state hrecords hknown
  have hparser := h taken (state.atDepth (state.depth + 1))
    ⟨hrecords.reading, hrecords.faithful⟩ hknown
  rw [within_run]
  cases hrun : parser (state.atDepth (state.depth + 1)) with
  | ok value reached =>
      rw [hrun] at hparser
      cases hparser with
      | ok hreached hopen => exact .ok ⟨hreached.reading, hreached.faithful⟩ hopen
  | error failure stop =>
      rw [hrun] at hparser
      cases hparser with
      | error inner hstop hopen htells => exact .error inner hstop hopen htells

/-! ### Constructs -/

/-- What is left of a construct: nothing if it gives a value, and if it fails, the construct itself
and what is open inside it. -/
theorem construct_cases (h : parser.Accounts text levels .nothing) (kind : Construct)
    (hrecords : state.Records text)
    (hcloses : ∀ value (reached : ParseState), reached.Records text →
      parser.CanGive state.place value reached.place → kind = .statement →
        StatementEnds state.cursor.offset (tokensTaken reached.journal)) :
    (∃ value stop, construct kind parser state = .ok value stop ∧ stop.Records text ∧
      Event.openConstructs stop.journal = Event.openConstructs state.journal) ∨
    ∃ failure stop inner, construct kind parser state = .error failure stop ∧
      Event.Faithful text stop.journal ∧
      Event.openConstructs stop.journal =
        inner ++ (kind, state.cursor.offset) :: Event.openConstructs state.journal ∧
      failure.TellsOf text levels inner ∧
      ∀ value there, ¬ parser.Gives state.place value there := by
  let opened := state.noted (.opened kind state.cursor.offset)
  have hinner := h [] opened (hrecords.opened kind) trivial
  have hrun : construct kind parser state =
      ((parser >>= fun value => Parser.note .closed >>= fun _ => Pure.pure value) opened) := rfl
  rw [hrun, bind_run]
  cases hparser : parser opened with
  | error failure stop =>
      rw [hparser] at hinner
      cases hinner with
      | error inner hstop hopen htells =>
          refine .inr ⟨failure, stop, inner, rfl, hstop, hopen, htells, fun value there h => ?_⟩
          obtain ⟨_, -, -, hgiven⟩ := h opened rfl
          rw [hparser] at hgiven
          cases hgiven
  | ok value reached =>
      rw [hparser] at hinner
      cases hinner with
      | ok hreached hopen =>
          refine .inl ⟨value, reached.noted .closed, rfl, hreached.noted rfl ?_, ?_⟩
          · intro start outer hstack
            rw [hopen] at hstack
            cases hstack
            exact hcloses value reached hreached ⟨opened, reached, rfl, rfl, hparser⟩ rfl
          · show (Event.openConstructs reached.journal).tail = _
            rw [hopen]
            rfl

/-- An expression is open while it is read; a failure does not name it. -/
theorem expression (h : parser.Accounts text levels .nothing) :
    (construct .expression parser).Accounts text (levels + 1) known := by
  intro taken state hrecords _
  rcases h.construct_cases .expression hrecords (fun _ _ _ _ hkind => nomatch hkind) with
    ⟨value, stop, hrun, hstop, hopen⟩ | ⟨failure, stop, inner, hrun, hstop, hopen, htells, -⟩
  · exact hrun ▸ .ok hstop hopen
  · refine hrun ▸ .error (inner ++ [(.expression, state.cursor.offset)]) hstop ?_ ⟨?_, ?_⟩
    · rw [hopen, List.append_cons]
    · rw [htells.innermost, List.findSome?_append]
      exact Option.or_none.symm
    · exact htells.unfinished.concat fun hkind => nomatch hkind

/-- A statement is open while it is read; a failure names it unless one inside it is open. -/
theorem statement {body : Parser Statement} {height : Nat}
    (h : body.Accounts text levels .nothing)
    (hgiven : ∀ {here statement there}, body.CanGive here statement there →
      ∃ tokens, Reads here tokens there ∧ (Phrases.ofHeight height).IsBody tokens statement)
    (hgives : ∀ {here tokens statement there}, Reads here tokens there →
      (Phrases.ofHeight levels).statement tokens statement →
        ∃ given middle, body.Gives here given middle)
    (hrecords : state.Records text) :
    Accounted text (levels + 1) state
      (inStatement state.cursor.offset (construct .statement body) state) := by
  have hcloses (statement : Statement) (reached : ParseState) (hreached : reached.Records text)
      (hbody : body.CanGive state.place statement reached.place) :
      StatementEnds state.cursor.offset (tokensTaken reached.journal) := by
    obtain ⟨tokens, hreads, hderived⟩ := hgiven hbody
    exact hrecords.statementEnds hreached hreads hderived
  unfold Parser.inStatement
  rcases h.construct_cases .statement hrecords
      (fun statement reached hreached hbody _ => hcloses statement reached hreached hbody) with
    ⟨value, stop, hrun, hstop, hopen⟩ |
      ⟨failure, stop, inner, hrun, hstop, hopen, htells, hfails⟩
  · rw [hrun]
    exact .ok hstop hopen
  · rw [hrun]
    refine .error (inner ++ [(.statement, state.cursor.offset)]) hstop ?_ ⟨?_, ?_⟩
    · rw [hopen, List.append_cons]
    · rw [List.findSome?_append, ← htells.innermost]
      obtain ⟨cause, offset, begin?⟩ := failure
      cases begin? <;> rfl
    · refine htells.unfinished.concat fun _ => ⟨_, state.place, hrecords.reading, rfl, ?_⟩
      intro tokens statement there hreads hderived
      obtain ⟨given, middle, hgiven⟩ := hgives hreads hderived
      exact hfails given middle hgiven

end Parser.Accounts

/-- Composed parsers account for what is open when the inner ones do. -/
theorem Composed.accounts {levels : Nat} {inner : {α : Type} → Parser α → Prop}
    (hinner : ∀ {α : Type} {parser : Parser α}, inner parser → parser.Accounts text levels .nothing)
    {α : Type} {known : Known} {parser : Parser α} (h : Composed inner known parser) :
    parser.Accounts text levels known := by
  induction h with
  | inner h => exact hinner h
  | spanned make h =>
      exact .bind (.stays fun _ => ⟨_, rfl⟩) fun _ => .bind (hinner h) fun _ =>
        .stays fun _ => ⟨_, rfl⟩
  | pure value => exact .pure value
  | bind _ _ _ ihfirst ihrest => exact .bind ihfirst ihrest
  | atEnd _ _ ih => exact .bind (.stays fun _ => ⟨_, rfl⟩) ih
  | spanFrom => exact .stays fun _ => ⟨_, rfl⟩
  | note hevent => exact .note hevent
  | peek? _ _ _ _ ihnone ihsome => exact .bind_peek? ihnone ihsome
  | peek _ ih => exact .bind_peek ih
  | take _ ih => exact .bind_take ih
  | failNext | failBehind => exact .fail _ _
  | repeated value hadvances _ _ _ ihfirst ihnext => exact .repeated hadvances ihfirst ihnext
  | unaware _ ih => exact .unaware ih

/-- A statement and its redundant semicolons account for what is open when the statement does. -/
theorem Parser.Accounts.terminated {levels : Nat} {body : Parser Statement}
    (h : body.Accounts text levels .nothing) (height : Nat)
    (hgiven : ∀ {here statement there}, body.CanGive here statement there →
      ∃ tokens, Reads here tokens there ∧ (Phrases.ofHeight height).IsBody tokens statement)
    (hgives : ∀ {here tokens statement there}, Reads here tokens there →
      (Phrases.ofHeight levels).statement tokens statement →
        ∃ given middle, body.Gives here given middle) :
    (Level.terminated body).Accounts text (levels + 1) known := by
  intro taken state hrecords _
  have hsemicolons : Composed (fun _ => False) .nothing (many (next? .semicolon)) := .semicolons
  exact (h.statement hgiven hgives hrecords).bind fun statement =>
    .bind (hsemicolons.accounts False.elim) fun _ => .pure statement

/-- The parsers of a level account for what is open. -/
structure Level.Accounts (level : Level) (text : List Char) (levels : Nat) : Prop where
  expr (mode) : (level.expr mode).Accounts text levels .nothing
  statement : level.statement.Accounts text levels .nothing

theorem Level.Accounts.of_has {level : Level} {levels : Nat} (h : level.Accounts text levels)
    {α : Type} {parser : Parser α} (hhas : level.Has parser) :
    parser.Accounts text levels .nothing := by
  cases hhas with
  | expr mode => exact h.expr mode
  | statement => exact h.statement

/-- Every level of the grammar accounts for what is open. -/
theorem accounts_ofHeight (text : List Char) (height : Nat) :
    (Level.ofHeight height).Accounts text (height + 1) := by
  induction height with
  | zero =>
      have hdeep {α : Type} : (tooDeep : Parser α).Accounts text 0 .nothing :=
        .fails fun _ => ⟨_, rfl, rfl⟩
      exact ⟨fun _ => hdeep.expression,
        hdeep.terminated 0 (fun h => h.tooDeep.elim) fun _ h => h.elim⟩
  | succ height ih =>
      have hreading := reading_ofHeight height
      have hresolute := resolute_ofHeight height
      have hexpression (mode : Mode) := hreading.grammatical.composed_expression hresolute mode
      have hbody := hreading.grammatical.composed_statementBody hresolute
      refine ⟨fun mode => ((hexpression mode).accounts ih.of_has).within.expression,
        (hbody.accounts ih.of_has).within.terminated height ?_ ?_⟩
      · exact fun h => hreading.sound.statementBody hreading.opens h.within
      · rintro here _ statement _ hreads ⟨hderived, -⟩
        obtain ⟨middle, hreads, -⟩ := Reads.append_iff.1 hreads
        exact ⟨statement, middle,
          ((complete_ofHeight height).statementBody hreading.opens hderived hreads).within⟩

/-- A run over a text that fails tells of what is open. -/
theorem tellsOf_of_parseWithin {limit : Nat} {failure : Failure} {stop : ParseState}
    (h : parseWithin limit text = .error failure stop) :
    Event.Faithful text stop.journal ∧
      failure.TellsOf text (limit + 1) (Event.openConstructs stop.journal) := by
  have hstatements := (grammatical_ofHeight limit).composed_statements.accounts
    (accounts_ofHeight text limit).of_has
  have hrun : Accounted text (limit + 1) (.start text) (parseWithin limit text) :=
    hstatements [] (.start text) (.start text) trivial
  rw [h] at hrun
  cases hrun with
  | error inner hstop hopen htells =>
      rw [show Event.openConstructs (ParseState.start text).journal = [] from rfl,
        List.append_nil] at hopen
      exact ⟨hstop, hopen ▸ htells⟩

/-! ## Failures outside of statements -/

/-- Some tokens derive items, and more tokens one more item. -/
theorem Phrases.Series.concat {α : Type} {item : List Token → α → Prop} {values : List α}
    {value : α} (h : Series item tokens values) (hitem : item more value) :
    Series item (tokens ++ more) (values ++ [value]) := by
  induction h with
  | nil => exact .single hitem
  | cons hfirst _ ih => exact List.append_assoc .. ▸ .cons hfirst ih

/-- A failure is a fault that stands behind tokens which derive something. -/
def Failure.Behind {α : Type} (derived : List Token → α → Prop) (here : Place)
    (failure : Failure) : Prop :=
  ∃ tokens value there, Reads here tokens there ∧ derived tokens value ∧
    there.cursor.peek = .error failure

/-- Where the failure of a statement names none, the statement is complete and a fault stands behind
its redundant semicolons. -/
theorem Parser.FailsOnly.behind_terminated {body : Parser Statement}
    {derived : List Token → Statement → Prop}
    (hgiven : ∀ {here statement there}, body.CanGive here statement there →
      ∃ tokens, Reads here tokens there ∧
        ∀ semicolons, (∀ token ∈ semicolons, token.kind = .semicolon) →
          derived (tokens ++ semicolons) statement) :
    (Level.terminated body).FailsOnly here fun failure =>
      failure.statement = none → failure.Behind derived here := by
  refine .bind_offset (.bind (.inStatement ?_) fun {statement middle} hstatement => ?_)
  · rintro _ ⟨cause, offset, begin?⟩ _ _ - hnone
    cases begin? <;> cases hnone
  obtain ⟨tokens, hreads, hderived⟩ := hgiven hstatement.inStatement.construct
  refine .bind ?_ fun _ => .pure _
  -- The loop has come behind the statement and semicolons alone.
  refine .many (fun here => ∃ semicolons, Reads middle semicolons here ∧
    ∀ token ∈ semicolons, token.kind = .semicolon) length_lt_of_next? ?_ ?_ ⟨[], .nil _, by simp⟩
  · rintro there ⟨semicolons, hmore, hkinds⟩
    exact .next? fun hfault _ =>
      ⟨_, statement, there, hreads.append hmore, hderived semicolons hkinds, hfault⟩
  · rintro here item there ⟨semicolons, hmore, hkinds⟩ hsemicolon
    rcases hsemicolon.next? with ⟨token, -, hnext, hkind, rfl⟩ | ⟨hnone, -⟩
    · refine ⟨semicolons ++ [token], hmore.append (.single hnext), ?_⟩
      simpa [or_imp, forall_and] using ⟨hkinds, hkind⟩
    · cases hnone

/-- What a level says of a failure that names no statement. -/
theorem failsOnly_behind_statement (height : Nat) (here : Place) :
    (Level.ofHeight height).statement.FailsOnly here fun failure =>
      failure.statement = none → failure.Behind (Phrases.ofHeight height).statement here := by
  cases height with
  | zero => exact .behind_terminated fun h => h.tooDeep.elim
  | succ height =>
      have hreading := reading_ofHeight height
      refine .behind_terminated fun h => ?_
      obtain ⟨tokens, hreads, hbody⟩ := hreading.sound.statementBody hreading.opens h.within
      exact ⟨tokens, hreads, fun _ => .intro hbody⟩

/-- Tokens derive at least one statement of a program. -/
def DerivesSome (height : Nat) (tokens : List Token) (statements : List Statement) : Prop :=
  statements ≠ [] ∧ Derives height tokens statements

/-- A run over a text whose failure names no statement has come through statements to a fault. -/
theorem behind_statements_of_parseWithin {limit : Nat} {failure : Failure} {stop : ParseState}
    (h : parseWithin limit text = .error failure stop) (hnone : failure.statement = none) :
    failure.Behind (DerivesSome limit) (.start text) := by
  have hreading := reading_ofHeight limit
  have hstatements : (Level.ofHeight limit).statements.FailsOnly (.start text) fun failure =>
      failure.statement = none → failure.Behind (DerivesSome limit) (.start text) := by
    -- The loop has come behind statements alone.
    refine .many (fun here => ∃ tokens statements, Reads (.start text) tokens here ∧
      Derives limit tokens statements) hreading.grammatical.length_lt_of_statement? ?_ ?_
      ⟨[], [], .nil _, .nil⟩
    · rintro here ⟨tokens, statements, hreads, hderives⟩
      refine .bind_atEnd ?_
      split
      · exact .pure _
      refine .bind ?_ fun _ => .pure _
      refine (failsOnly_behind_statement limit here).imp fun failure hbehind hnone => ?_
      obtain ⟨more, statement, there, hmore, hderived, hfault⟩ := hbehind hnone
      exact ⟨_, statements ++ [statement], there, hreads.append hmore,
        ⟨by simp, Phrases.Series.concat hderives hderived⟩, hfault⟩
    · rintro here statement there ⟨tokens, statements, hreads, hderives⟩ hgiven
      rcases canGive_statement? hgiven with ⟨_, hsome, hstatement⟩ | ⟨hnone, -⟩
      · obtain ⟨more, hmore, hderived, -⟩ := hreading.sound.statement hstatement
        exact ⟨_, _, hreads.append hmore, Phrases.Series.concat hderives hderived⟩
      · cases hnone
  exact hstatements (.start text) failure stop rfl h hnone

/-! ## Syntax errors -/

/-- Which statement a syntax error names, by the journal of a parse of the text. The statements that
are open are those that have started and are not complete. -/
structure SyntaxError.NamesStatement (error : SyntaxError) (source : String)
    (journal : List Event) : Prop where
  faithful : Event.Faithful source.toList journal
  unfinished : Unfinished source.toList (nestingLimit + 1) (Event.openConstructs journal)
  innermost : error.statement = (Event.openStatements journal).head?
  start_le : ∀ start, error.statement = some start → start ≤ error.offset
  none_iff : error.statement = none ↔
    Event.openStatements journal = [] ∧ error.kind = .lexical ∧
      ∃ fault : Failure, fault.Behind (DerivesSome nestingLimit) (.start source.toList) ∧
        error = fault.report source.toList

/-- The error of a text that is refused names the innermost statement that is open. It names none
exactly if none is open, and then it is the fault behind the statements that the text starts with,
with their redundant semicolons and the blanks there. -/
theorem Program.parse_error_statement {source : String} {error : SyntaxError}
    (h : Program.parse source = .error error) :
    error.NamesStatement source (Program.parseText source.toList).2 := by
  obtain ⟨failure, stop, hrun, rfl⟩ := Program.parse_eq_error_iff.1 h
  have hanchored := anchored_of_parseWithin hrun
  obtain ⟨hfaithful, htells⟩ := tellsOf_of_parseWithin hrun
  rw [Program.journal_eq, hrun]
  have hinnermost : failure.statement = (Event.openStatements stop.journal).head? := by
    rw [Event.openStatements, List.head?_filterMap, htells.innermost]
  refine ⟨hfaithful, htells.unfinished, hinnermost, hanchored.statement, fun hnone => ?_, ?_⟩
  · have hbehind := behind_statements_of_parseWithin hrun hnone
    have hlexical : failure.cause.kind = .lexical := by
      obtain ⟨_, _, _, -, -, hfault⟩ := hbehind
      obtain ⟨fault, rfl⟩ := Cursor.peek_eq_error hfault
      rfl
    exact ⟨List.head?_eq_none_iff.1 (hinnermost.symm.trans hnone), hlexical, failure, hbehind, rfl⟩
  · rintro ⟨hopen, -⟩
    show failure.statement = none
    rw [hinnermost, hopen]
    rfl

/-- The error inside the body of an arrow function: the statement in the body is open, and the
declaration around it. -/
theorem Program.parse_error_statement_body :
    ∃ error, Program.parse "let f = () => \x7b a b; \x7d;" = .error error ∧
      error.statement = some 16 ∧
      Event.openStatements (Program.parseText "let f = () => \x7b a b; \x7d;".toList).2 =
        [16, 0] ∧
      error.NamesStatement "let f = () => \x7b a b; \x7d;"
        (Program.parseText "let f = () => \x7b a b; \x7d;".toList).2 := by
  have h : Program.parse "let f = () => \x7b a b; \x7d;" = .error ⟨.unexpectedToken,
      "expected `;`, `,` or a closing bracket, found `b`", 18, " => \x7b a b; \x7d;", some 16⟩ :=
    Program.parse_eq_error_of_map (by decide +kernel)
  exact ⟨_, h, rfl, by decide +kernel, Program.parse_error_statement h⟩

end Scriptlet
