import Scriptlet.Proofs.Buffer
import Scriptlet.Proofs.Proceeding

/-!
# A machine for the parser

The parser as a machine executes it. A machine holds a text and does by itself what touches the text
or counts: scanning a token, moving the cursor over one, quoting the text in a report, entering a
level and leaving it. Each of these may panic instead. `Machine.Runs` gives the runs of a machine
that comes to the end: the state holds an offset and no text, a level is entered only while the
counter is below the limit, and a loop goes round for as long as its step says, with no other bound.

A machine that does right what it does by itself runs every program text to the end that the parser
gives. So a run never waits for more than the rounds that there are, and a machine that checks its
accesses and its arithmetic never panics.
-/

namespace Scriptlet

open Scriptlet.Parser

/-- What executes the operations of the parser, on one text. -/
structure Machine where
  text : List Char
  /-- The token at an offset, or the failure to read one. -/
  peek : Nat → Checked (Except Failure (Option Token))
  /-- Where the cursor goes over a token, and where the token stops. -/
  past : Token → Checked (Nat × Nat)
  /-- A failure in words. -/
  report : Failure → Checked SyntaxError
  /-- The counter of levels, one level deeper. -/
  enter : Nat → Checked Nat
  /-- The counter of levels, one level less deep. -/
  leave : Nat → Checked Nat

namespace Machine

variable {α β : Type}

/-- The machine comes to the end of a run of the parser, with no panic on the way. -/
inductive Runs (machine : Machine) :
    {α : Type} → Parser α → ParseState → EStateM.Result Failure ParseState α → Prop where
  | pure {α : Type} (value : α) (state) : Runs machine (Pure.pure value) state (.ok value state)
  | bind {α β : Type} {first : Parser α} {rest : α → Parser β} {state value reached outcome} :
      Runs machine first state (.ok value reached) → Runs machine (rest value) reached outcome →
      Runs machine (first >>= rest) state outcome
  | bindError {α β : Type} {first : Parser α} {rest : α → Parser β} {state failure stop} :
      Runs machine first state (.error failure stop) →
      Runs machine (first >>= rest) state (.error failure stop)
  | offset (state) : Runs machine offset state (.ok state.cursor.offset state)
  | atEnd (state) :
      Runs machine atEnd state (.ok (machine.text.length ≤ state.cursor.offset) state)
  | spanFrom (start state) :
      Runs machine (spanFrom start) state (.ok (.between start state.lastStop) state)
  | note (event state) : Runs machine (note event) state (.ok () (state.noted event))
  | peek? {state token?} :
      machine.peek state.cursor.offset = .ok (.ok token?) →
      Runs machine peek? state (.ok token? state)
  | fault {state failure error} :
      machine.peek state.cursor.offset = .ok (.error failure) →
      machine.report failure = .ok error →
      Runs machine peek? state (.error failure state)
  | take {token state offset stop} :
      machine.past token = .ok (offset, stop) →
      Runs machine (take token) state (.ok () { state with
        cursor := .ofOffset machine.text offset
        lastStop := stop
        journal := .token token :: state.journal })
  | fail {α : Type} {cause offset state error} :
      machine.report ⟨cause, offset, none⟩ = .ok error →
      Runs machine (fail cause offset : Parser α) state (.error ⟨cause, offset, none⟩ state)
  | tooDeep {α : Type} {state error} :
      nestingLimit ≤ state.depth →
      machine.report ⟨.tooDeep nestingLimit, state.cursor.offset, none⟩ = .ok error →
      Runs machine (tooDeep : Parser α) state
        (.error ⟨.tooDeep nestingLimit, state.cursor.offset, none⟩ state)
  | within {α : Type} {parser : Parser α} {state deeper value reached depth} :
      state.depth < nestingLimit → machine.enter state.depth = .ok deeper →
      Runs machine parser (state.atDepth deeper) (.ok value reached) →
      machine.leave reached.depth = .ok depth →
      Runs machine (within parser) state (.ok value (reached.atDepth depth))
  | withinError {α : Type} {parser : Parser α} {state deeper failure stop depth} :
      state.depth < nestingLimit → machine.enter state.depth = .ok deeper →
      Runs machine parser (state.atDepth deeper) (.error failure stop) →
      machine.leave stop.depth = .ok depth →
      Runs machine (within parser) state (.error failure (stop.atDepth depth))
  | inStatement {α : Type} {parser : Parser α} {begin state value stop} :
      Runs machine parser state (.ok value stop) →
      Runs machine (inStatement begin parser) state (.ok value stop)
  | inStatementError {α : Type} {parser : Parser α} {begin state failure stop} :
      Runs machine parser state (.error failure stop) →
      Runs machine (inStatement begin parser) state (.error (failure.inStatement begin) stop)
  | done {α β : Type} {step : α → Parser (Round α β)} {value state result stop} :
      Runs machine (step value) state (.ok (.done result) stop) →
      Runs machine (repeated step value) state (.ok result stop)
  | again {α β : Type} {step : α → Parser (Round α β)} {value state next reached outcome} :
      Runs machine (step value) state (.ok (.again next) reached) →
      Runs machine (repeated step next) reached outcome →
      Runs machine (repeated step value) state outcome
  | roundError {α β : Type} {step : α → Parser (Round α β)} {value state failure stop} :
      Runs machine (step value) state (.error failure stop) →
      Runs machine (repeated step value) state (.error failure stop)

/-- The machine does right what it does by itself, wherever the parser asks for it. -/
structure Lawful (machine : Machine) : Prop where
  peek (offset) : machine.peek offset = .ok (Cursor.ofOffset machine.text offset).peek
  past {offset token} : (Cursor.ofOffset machine.text offset).peek = .ok (some token) →
    machine.past token =
      .ok (((Cursor.ofOffset machine.text offset).past token).offset, token.span.stop)
  report (failure) : machine.report failure = .ok (failure.report machine.text)
  enter {depth} : depth < nestingLimit → machine.enter depth = .ok (depth + 1)
  leave {depth} : 0 < depth → depth ≤ nestingLimit → machine.leave depth = .ok (depth - 1)

end Machine

/-- A state of a parse of the text, with so many levels left to open. -/
structure ParseState.Sits (state : ParseState) (text : List Char) (height : Nat) : Prop where
  cursor : state.cursor.In text
  depth : state.depth + height = nestingLimit

namespace Machine

/-- The machine runs the parser, wherever it may start with so many levels left to open, to the
parser's own end. -/
def Executes (machine : Machine) (height : Nat) {α : Type} (known : Known) (parser : Parser α) :
    Prop :=
  ∀ (taken : List Token) (state : ParseState), state.Sits machine.text height →
    known.At taken state.place → machine.Runs parser state (parser state) ∧
      (finish (parser state)).Sits machine.text height

variable {machine : Machine} {height : Nat} {known : Known} {α β : Type}

namespace Executes

theorem unaware {parser : Parser α} (h : machine.Executes height .nothing parser) :
    machine.Executes height known parser :=
  fun taken state hsits _ => h taken state hsits trivial

/-- A parser that leaves the state as it is, where the machine runs it. -/
theorem stays {parser : Parser α} (hrun : ∀ state : ParseState, state.cursor.In machine.text →
      machine.Runs parser state (parser state))
    (hstays : ∀ state, finish (parser state) = state) : machine.Executes height known parser :=
  fun _ state hsits _ => ⟨hrun state hsits.cursor, (hstays state).symm ▸ hsits⟩

theorem pure (value : α) : machine.Executes height known (Pure.pure value : Parser α) :=
  stays (fun state _ => .pure value state) fun _ => rfl

theorem offset : machine.Executes height known offset :=
  stays (fun state _ => .offset state) fun _ => rfl

theorem spanFrom (start : Nat) : machine.Executes height known (spanFrom start) :=
  stays (fun state _ => .spanFrom start state) fun _ => rfl

theorem note (event : Event) : machine.Executes height known (note event) :=
  fun _ state hsits _ => ⟨.note event state, ⟨hsits.cursor, hsits.depth⟩⟩

/-- The text ends where the offset is its length. -/
theorem atEnd : machine.Executes height known atEnd := by
  refine stays (fun state hin => ?_) fun _ => rfl
  obtain ⟨before, htext, hoffset⟩ := hin
  have hended : state.cursor.rest.isEmpty =
      decide (machine.text.length ≤ state.cursor.offset) := by
    rw [htext, List.length_append, hoffset, Bool.eq_iff_iff, List.isEmpty_iff, decide_eq_true_iff,
      ← List.length_eq_zero_iff]
    omega
  show machine.Runs Parser.atEnd state (.ok state.cursor.rest.isEmpty state)
  rw [hended]
  exact .atEnd state

theorem fail (hlawful : machine.Lawful) (cause : Cause) (offset : Nat) :
    machine.Executes height known (Parser.fail cause offset : Parser α) :=
  stays (fun _ _ => .fail (hlawful.report _)) fun _ => rfl

theorem bind {first : Parser α} {rest : α → Parser β}
    (hfirst : machine.Executes height known first)
    (hrest : ∀ value, machine.Executes height .nothing (rest value)) :
    machine.Executes height known (first >>= rest) := by
  intro taken state hsits hknown
  obtain ⟨hruns, hstop⟩ := hfirst taken state hsits hknown
  rw [bind_run]
  cases hrun : first state with
  | error failure stop =>
      rw [hrun] at hruns hstop
      exact ⟨.bindError hruns, hstop⟩
  | ok value reached =>
      rw [hrun] at hruns hstop
      obtain ⟨hmore, hend⟩ := hrest value [] reached hstop trivial
      exact ⟨.bind hruns hmore, hend⟩

/-- The machine sees the token that the parser sees. -/
theorem bind_peek? (hlawful : machine.Lawful) {rest : Option Token → Parser α}
    (hnone : machine.Executes height .nothing (rest none))
    (hsome : ∀ token, machine.Executes height (.next token) (rest (some token))) :
    machine.Executes height known (Parser.peek? >>= rest) := by
  intro taken state hsits _
  have hpeeks : machine.peek state.cursor.offset = .ok state.cursor.peek := by
    rw [hlawful.peek, ← hsits.cursor.eq_ofOffset]
  rw [bind_run, peek?_run]
  cases hpeek : state.cursor.peek with
  | error failure =>
      rw [hpeek] at hpeeks
      exact ⟨.bindError (.fault hpeeks (hlawful.report failure)), hsits⟩
  | ok token? =>
      rw [hpeek] at hpeeks
      cases token? with
      | none =>
          obtain ⟨hruns, hstop⟩ := hnone [] state hsits trivial
          exact ⟨.bind (.peek? hpeeks) hruns, hstop⟩
      | some token =>
          obtain ⟨hruns, hstop⟩ := hsome token [] state hsits hpeek
          exact ⟨.bind (.peek? hpeeks) hruns, hstop⟩

theorem bind_peek (hlawful : machine.Lawful) {rest : Token → Parser α}
    (h : ∀ token, machine.Executes height (.next token) (rest token)) :
    machine.Executes height known (Parser.peek >>= rest) := by
  unfold Parser.peek
  rw [bind_assoc]
  exact bind_peek? hlawful (fun _ state hsits _ =>
    ⟨.bindError (.bind (.offset state) (.fail (hlawful.report _))), hsits⟩) h

/-- The machine moves over the token that is next as the parser does. -/
theorem bind_take (hlawful : machine.Lawful) {token : Token} {rest : Unit → Parser α}
    (h : machine.Executes height (.behind token) (rest ())) :
    machine.Executes height (.next token) (Parser.take token >>= rest) := by
  intro taken state hsits hnext
  have hnext : state.place.Next token := hnext
  have hin : (state.took token).cursor.In machine.text := hnext.in hsits.cursor
  obtain ⟨hruns, hstop⟩ := h [token] (state.took token) ⟨hin, hsits.depth⟩ rfl
  have hpast : machine.past token = .ok ((state.took token).cursor.offset, token.span.stop) := by
    have hpeek : (Cursor.ofOffset machine.text state.cursor.offset).peek = .ok (some token) := by
      rw [← hsits.cursor.eq_ofOffset]
      exact hnext
    rw [hlawful.past hpeek, ← hsits.cursor.eq_ofOffset]
    rfl
  refine ⟨.bind (.take hpast) ?_, hstop⟩
  rw [← hin.eq_ofOffset]
  exact hruns

/-- The level that is entered is left again, where the counter is not at zero. -/
theorem within (hlawful : machine.Lawful) {parser : Parser α}
    (h : machine.Executes height .nothing parser) :
    machine.Executes (height + 1) known (Parser.within parser) := by
  intro taken state hsits _
  have hdepth := hsits.depth
  have hlt : state.depth < nestingLimit := by omega
  have hdeeper : (state.atDepth (state.depth + 1)).Sits machine.text height := by
    refine ⟨hsits.cursor, ?_⟩
    show state.depth + 1 + height = nestingLimit
    omega
  obtain ⟨hruns, hstop⟩ := h [] _ hdeeper trivial
  have hleave : ∀ {stop : ParseState}, stop.Sits machine.text height →
      machine.leave stop.depth = .ok (stop.depth - 1) ∧
        (stop.atDepth (stop.depth - 1)).Sits machine.text (height + 1) := by
    intro stop hstop
    have hopen := hstop.depth
    refine ⟨hlawful.leave (by omega) (by omega), hstop.cursor, ?_⟩
    show stop.depth - 1 + (height + 1) = nestingLimit
    omega
  rw [within_run]
  cases hrun : parser (state.atDepth (state.depth + 1)) with
  | ok value reached =>
      rw [hrun] at hruns hstop
      obtain ⟨hleft, hend⟩ := hleave hstop
      exact ⟨.within hlt (hlawful.enter hlt) hruns hleft, hend⟩
  | error failure stop =>
      rw [hrun] at hruns hstop
      obtain ⟨hleft, hend⟩ := hleave hstop
      exact ⟨.withinError hlt (hlawful.enter hlt) hruns hleft, hend⟩

/-- Where no level is left to open the counter is at the limit. -/
theorem tooDeep (hlawful : machine.Lawful) :
    machine.Executes 0 known (Parser.tooDeep : Parser α) := by
  intro taken state hsits _
  have hdepth : state.depth = nestingLimit := hsits.depth
  refine ⟨?_, hsits⟩
  show machine.Runs Parser.tooDeep state
    (.error ⟨.tooDeep state.depth, state.cursor.offset, none⟩ state)
  rw [hdepth]
  exact .tooDeep (Nat.le_of_eq hdepth.symm) (hlawful.report _)

theorem inStatement {parser : Parser α} (h : machine.Executes height known parser) (begin : Nat) :
    machine.Executes height known (Parser.inStatement begin parser) := by
  intro taken state hsits hknown
  obtain ⟨hruns, hstop⟩ := h taken state hsits hknown
  unfold Parser.inStatement
  cases hrun : parser state with
  | ok value stop =>
      rw [hrun] at hruns hstop
      exact ⟨.inStatement hruns, hstop⟩
  | error failure stop =>
      rw [hrun] at hruns hstop
      exact ⟨.inStatementError hruns, hstop⟩

theorem construct {parser : Parser α} (h : machine.Executes height .nothing parser)
    (kind : Construct) : machine.Executes height known (Parser.construct kind parser) :=
  bind offset fun _ => bind (note _) fun _ => bind h fun _ => bind (note _) fun _ => pure _

/-- A loop comes to its end, because every round that goes on takes a token. -/
theorem repeated {step : α → Parser (Round α β)} (hadvances : Advances step) {value : α}
    (hfirst : machine.Executes height known (step value))
    (hnext : ∀ {value next here there}, (step value).CanGive here (.again next) there →
      machine.Executes height .nothing (step next)) :
    machine.Executes height known (Parser.repeated step value) := by
  intro taken state hsits hknown
  induction hlength : state.cursor.rest.length using Nat.strongRecOn
    generalizing taken state value known with
  | ind length ih =>
      obtain ⟨hruns, hstop⟩ := hfirst taken state hsits hknown
      rw [repeated_run hadvances]
      cases hrun : step value state with
      | error failure stop =>
          rw [hrun] at hruns hstop
          exact ⟨.roundError hruns, hstop⟩
      | ok round reached =>
          rw [hrun] at hruns hstop
          cases round with
          | done result => exact ⟨.done hruns, hstop⟩
          | again next =>
              have hlt := hlength ▸ hadvances.length_lt hrun
              obtain ⟨hmore, hend⟩ :=
                ih _ hlt (hnext ⟨state, reached, rfl, rfl, hrun⟩) [] reached hstop trivial rfl
              exact ⟨.again hruns hmore, hend⟩

end Executes

end Machine

open Machine in
/-- A lawful machine runs what is composed of parsers that it runs. -/
theorem Composed.executes {machine : Machine} {height : Nat}
    {inner : {α : Type} → Parser α → Prop} (hlawful : machine.Lawful)
    (hinner : ∀ {α : Type} {parser : Parser α}, inner parser →
      machine.Executes height .nothing parser)
    {α : Type} {known : Known} {parser : Parser α} (h : Composed inner known parser) :
    machine.Executes height known parser := by
  induction h with
  | inner h => exact hinner h
  | spanned make h =>
      exact .bind .offset fun _ => .bind (hinner h) fun _ => .bind (.spanFrom _) fun _ => .pure _
  | pure value => exact .pure value
  | bind _ _ _ ihfirst ihrest => exact .bind ihfirst ihrest
  | atEnd _ _ ih => exact .bind .atEnd ih
  | spanFrom start => exact .spanFrom start
  | note _ => exact .note _
  | peek? _ _ _ _ ihnone ihsome => exact .bind_peek? hlawful ihnone ihsome
  | peek _ ih => exact .bind_peek hlawful ih
  | take _ ih => exact .bind_take hlawful ih
  | failNext _ offset _ | failBehind _ offset _ => exact .fail hlawful _ offset
  | repeated value hadvances _ _ _ ihfirst ihnext => exact .repeated hadvances ihfirst ihnext
  | unaware _ ih => exact .unaware ih

namespace Machine

variable {machine : Machine}

/-- A lawful machine runs what is composed of operations on tokens alone. -/
theorem Executes.of_composed {height : Nat} (hlawful : machine.Lawful) {α : Type} {known : Known}
    {parser : Parser α} (h : Composed (fun _ => False) known parser) :
    machine.Executes height known parser :=
  h.executes hlawful False.elim

/-- A lawful machine runs a statement and its redundant semicolons when it runs the statement. -/
theorem Executes.terminated {height : Nat} (hlawful : machine.Lawful) {body : Parser Statement}
    (h : machine.Executes height .nothing (Parser.construct .statement body)) :
    machine.Executes height .nothing (Level.terminated body) :=
  .bind .offset fun start => .bind (h.inStatement start) fun _ =>
    .bind (.of_composed hlawful .semicolons) fun _ => .pure _

/-- A lawful machine runs the parsers of a level with as many levels left to open. -/
theorem Lawful.executes_ofHeight (hlawful : machine.Lawful) (height : Nat) {α : Type}
    {parser : Parser α} (h : (Level.ofHeight height).Has parser) :
    machine.Executes height .nothing parser := by
  induction height generalizing α with
  | zero =>
      cases h with
      | expr mode => exact .construct (.tooDeep hlawful) _
      | statement => exact .terminated hlawful (.construct (.tooDeep hlawful) _)
  | succ height ih =>
      have hgrammatical := grammatical_ofHeight height
      have hresolute := resolute_ofHeight height
      cases h with
      | expr mode =>
          have hexpression := hgrammatical.composed_expression hresolute mode
          exact .construct (.within hlawful (hexpression.executes hlawful ih)) _
      | statement =>
          have hbody := hgrammatical.composed_statementBody hresolute
          exact .terminated hlawful
            (.construct (.within hlawful (hbody.executes hlawful ih)) _)

/-- A lawful machine runs every text to the end that the parser gives. -/
theorem Lawful.runs_statements (hlawful : machine.Lawful) :
    machine.Runs (Level.ofHeight nestingLimit).statements (.start machine.text)
      (parseWithin nestingLimit machine.text) := by
  have hstatements := (grammatical_ofHeight nestingLimit).composed_statements
  have hstart : (ParseState.start machine.text).Sits machine.text nestingLimit :=
    ⟨Cursor.start_in machine.text, Nat.zero_add nestingLimit⟩
  exact (hstatements.executes hlawful (hlawful.executes_ofHeight nestingLimit) [] _ hstart
    trivial).1

/-- The machine that does everything as the parser does it, on a text of any length. -/
def ofText (text : List Char) : Machine where
  text := text
  peek offset := .ok (Cursor.ofOffset text offset).peek
  past token :=
    .ok (((Cursor.ofOffset text token.span.offset).past token).offset, token.span.stop)
  report failure := .ok (failure.report text)
  enter depth := .ok (depth + 1)
  leave depth := .ok (depth - 1)

theorem lawful_ofText (text : List Char) : (ofText text).Lawful where
  peek _ := rfl
  past {offset token} h := by
    have hnext : Place.Next ⟨.ofOffset text offset, 0⟩ token := h
    have hoffset : token.span.offset = offset := hnext.offset_eq
    subst hoffset
    rfl
  report _ := rfl
  enter _ := rfl
  leave _ _ := rfl

end Machine

/-- The parse of every text terminates, because it proceeds. No call of a function of the parser
ends before the place where it starts, whether it gives a value or fails; the functions that read
a statement, an expression, an object, one of its fields or a block end further on when they give a
value; and no loop has more rounds than characters are left when it starts, and one more. So a
machine that bounds no loop comes to the end of every run. -/
theorem Program.parse_terminates :
    (∀ (height : Nat) (state : ParseState) {α : Type} (parser : Parser α),
      (Level.ofHeight height).Call state.place parser →
        state.cursor.offset ≤ (finish (parser state)).cursor.offset) ∧
    (∀ (height : Nat) (state stop : ParseState) {α : Type} (parser : Parser α) (value : α),
      (Level.ofHeight height).Takes state.place parser → parser state = .ok value stop →
        state.cursor.offset < stop.cursor.offset) ∧
    (∀ (height : Nat) {α β : Type} (step : α → Parser (Round α β)),
      (Level.ofHeight height).Loop step → ∀ (value : α) (state : ParseState),
        ∃ count ≤ state.cursor.rest.length + 1,
          LoopRuns step count value state (repeated step value state)) ∧
    ∀ text : List Char, (Machine.ofText text).Runs (Level.ofHeight nestingLimit).statements
      (.start text) (parseWithin nestingLimit text) := by
  refine ⟨fun height state _ parser hcall => ?_,
    fun height state stop _ parser value htakes hrun => ?_,
    fun height _ _ step hloop value state => ?_,
    fun text => (Machine.lawful_ofText text).runs_statements⟩
  · obtain ⟨tokens, hreads⟩ := hcall.reads (grammatical_ofHeight height) (resolute_ofHeight height)
      (proceeds_ofHeight height)
    exact hreads.offset_le
  · obtain ⟨tokens, hne, hreads⟩ := htakes.reads (grammatical_ofHeight height) hrun
    exact hreads.offset_lt hne
  · exact repeated_loopRuns (hloop.advances (grammatical_ofHeight height)) value state

end Scriptlet
