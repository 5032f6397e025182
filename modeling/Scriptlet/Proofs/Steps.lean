import Scriptlet.Proofs.Agreement
import Scriptlet.Proofs.Composition
import Mathlib.Logic.Relation

/-!
# Runs step by step

Four things happen to the state of a parse, and nothing else: the next token is taken, an event is
noted down, a level is entered, a level is left. A run of the parser is a way of such steps, whether
it gives a value or fails. It enters a level only while fewer than all of them are open, leaves none
that it did not enter, and takes a token only where that token is next; at its end as many levels
are open as at its start.

`Parser.Proceeds` says so of a parser with so many levels below it. Each operation has one rule, and
the grammar follows by induction on what it is composed of.
-/

namespace Scriptlet

open Scriptlet.Parser

/-! ## Steps -/

/-- What happens to the state of a parse while no more than `limit` levels may be open. -/
inductive ParseState.Step (limit : Nat) : ParseState → ParseState → Prop where
  | took {state token} : state.place.Next token → Step limit state (state.took token)
  | noted {state event} : event.token? = none → Step limit state (state.noted event)
  | entered {state} : state.depth < limit → Step limit state (state.atDepth (state.depth + 1))
  | left {state} : 0 < state.depth → Step limit state (state.atDepth (state.depth - 1))

/-- Steps lead from a state to one with as many levels open. -/
structure ParseState.Leads (limit : Nat) (state stop : ParseState) : Prop where
  steps : Relation.ReflTransGen (Step limit) state stop
  depth_eq : stop.depth = state.depth

/-- A step takes one token or none. -/
theorem ParseState.Step.reads {limit : Nat} {state stop : ParseState} (h : state.Step limit stop) :
    ∃ tokens, Reads state.place tokens stop.place := by
  cases h with
  | took hnext => exact ⟨_, .single hnext⟩
  | noted | entered | left => exact ⟨[], .nil _⟩

/-- Steps lead where reading some tokens leads. -/
theorem ParseState.reads_of_steps {limit : Nat} {state stop : ParseState}
    (h : Relation.ReflTransGen (Step limit) state stop) :
    ∃ tokens, Reads state.place tokens stop.place := by
  induction h with
  | refl => exact ⟨[], .nil _⟩
  | tail _ hstep ih =>
      obtain ⟨tokens, hreads⟩ := ih
      obtain ⟨more, hmore⟩ := hstep.reads
      exact ⟨tokens ++ more, hreads.append hmore⟩

namespace ParseState.Leads

variable {limit : Nat} {state reached stop : ParseState}

theorem refl (state : ParseState) : state.Leads limit state :=
  ⟨.refl, rfl⟩

theorem trans (h : state.Leads limit reached) (hrest : reached.Leads limit stop) :
    state.Leads limit stop :=
  ⟨h.steps.trans hrest.steps, hrest.depth_eq.trans h.depth_eq⟩

theorem took {token : Token} (h : state.place.Next token) :
    state.Leads limit (state.took token) :=
  ⟨.single (.took h), rfl⟩

theorem noted {event : Event} (h : event.token? = none) : state.Leads limit (state.noted event) :=
  ⟨.single (.noted h), rfl⟩

/-- Where as many levels are open as before, as many are left to open. -/
theorem onward {height : Nat} (h : state.Leads (state.depth + height) reached)
    (hmore : reached.Leads (reached.depth + height) stop) :
    state.Leads (state.depth + height) stop := by
  rw [h.depth_eq] at hmore
  exact h.trans hmore

/-- The level that is entered is left behind what happens in it. -/
theorem within (hlt : state.depth < limit)
    (h : (state.atDepth (state.depth + 1)).Leads limit reached) :
    state.Leads limit (reached.atDepth (reached.depth - 1)) := by
  have hdepth : reached.depth = state.depth + 1 := h.depth_eq
  refine ⟨((Relation.ReflTransGen.single (.entered hlt)).trans h.steps).tail (.left ?_), ?_⟩
  · rw [hdepth]
    exact Nat.succ_pos _
  · show reached.depth - 1 = state.depth
    rw [hdepth, Nat.add_sub_cancel]

end ParseState.Leads

/-! ## Runs -/

/-- The state that a run ends in, whether it gives a value or fails. -/
def Parser.finish {α : Type} : EStateM.Result Failure ParseState α → ParseState
  | .ok _ stop => stop
  | .error _ stop => stop

/-- Every run from where the parser may start is a way of steps, with at most `height` levels open
besides those at its start. -/
def Parser.Proceeds {α : Type} (height : Nat) (known : Known) (parser : Parser α) : Prop :=
  ∀ (taken : List Token) (state : ParseState), known.At taken state.place →
    state.Leads (state.depth + height) (finish (parser state))

namespace Parser.Proceeds

variable {α β : Type} {height : Nat} {known : Known}

/-- A parser that leaves the state as it is proceeds. -/
theorem stays {parser : Parser α} (h : ∀ state, finish (parser state) = state) :
    parser.Proceeds height known := by
  intro taken state _
  rw [h state]
  exact .refl state

theorem unaware {parser : Parser α} (h : parser.Proceeds height .nothing) :
    parser.Proceeds height known :=
  fun taken state _ => h taken state trivial

theorem note {event : Event} (h : event.token? = none) : (note event).Proceeds height known :=
  fun _ _ _ => .noted h

theorem bind {first : Parser α} {rest : α → Parser β} (hfirst : first.Proceeds height known)
    (hrest : ∀ value, (rest value).Proceeds height .nothing) :
    (first >>= rest).Proceeds height known := by
  intro taken state hknown
  have hleads := hfirst taken state hknown
  rw [bind_run]
  cases hrun : first state with
  | error failure stop =>
      rw [hrun] at hleads
      exact hleads
  | ok value reached =>
      rw [hrun] at hleads
      exact hleads.onward (hrest value [] reached trivial)

theorem bind_peek? {rest : Option Token → Parser α} (hnone : (rest none).Proceeds height .nothing)
    (hsome : ∀ token, (rest (some token)).Proceeds height (.next token)) :
    (Parser.peek? >>= rest).Proceeds height known := by
  intro taken state _
  rw [bind_run, peek?_run]
  cases hpeek : state.cursor.peek with
  | error failure => exact .refl state
  | ok token? =>
      cases token? with
      | none => exact hnone [] state trivial
      | some token => exact hsome token [] state hpeek

theorem peek? : Parser.peek?.Proceeds height known :=
  stays fun state => by
    rw [peek?_run]
    cases state.cursor.peek <;> rfl

theorem bind_peek {rest : Token → Parser α}
    (h : ∀ token, (rest token).Proceeds height (.next token)) :
    (Parser.peek >>= rest).Proceeds height known := by
  unfold Parser.peek
  rw [bind_assoc]
  exact bind_peek? (stays fun _ => rfl) h

/-- A token that is taken is read first. -/
theorem bind_take {token : Token} {rest : Unit → Parser α}
    (h : (rest ()).Proceeds height (.behind token)) :
    (take token >>= rest).Proceeds height (.next token) := by
  intro taken state hnext
  exact (ParseState.Leads.took hnext).trans (h [token] (state.took token) rfl)

theorem peek : Parser.peek.Proceeds height known := by
  have h : (Parser.peek >>= Pure.pure).Proceeds height known :=
    bind_peek fun _ => stays fun _ => rfl
  rwa [bind_pure] at h

theorem next : Parser.next.Proceeds height known :=
  bind_peek fun _ => bind_take (stays fun _ => rfl)

/-- A loop proceeds when its rounds do. -/
theorem repeated {step : α → Parser (Round α β)} (hadvances : Advances step) {value : α}
    (hfirst : (step value).Proceeds height known)
    (hnext : ∀ {value next here there}, (step value).CanGive here (.again next) there →
      (step next).Proceeds height .nothing) :
    (repeated step value).Proceeds height known := by
  intro taken state hknown
  induction hlength : state.cursor.rest.length using Nat.strongRecOn
    generalizing taken state value known with
  | ind length ih =>
      have hleads := hfirst taken state hknown
      rw [repeated_run hadvances]
      cases hrun : step value state with
      | error failure stop =>
          rw [hrun] at hleads
          exact hleads
      | ok round reached =>
          rw [hrun] at hleads
          cases round with
          | done result => exact hleads
          | again next =>
              have hlt := hlength ▸ hadvances.length_lt hrun
              exact hleads.onward
                (ih _ hlt (hnext ⟨state, reached, rfl, rfl, hrun⟩) [] reached trivial rfl)

/-- With one more level to open, a parser runs one level deeper. -/
theorem within {parser : Parser α} (h : parser.Proceeds height known) :
    (within parser).Proceeds (height + 1) known := by
  intro taken state hknown
  have hinner := h taken (state.atDepth (state.depth + 1)) hknown
  have hlimit : (state.atDepth (state.depth + 1)).depth + height = state.depth + (height + 1) :=
    Nat.succ_add_eq_add_succ state.depth height
  rw [hlimit] at hinner
  have hlt : state.depth < state.depth + (height + 1) := by omega
  rw [within_run]
  cases hrun : parser (state.atDepth (state.depth + 1)) <;> rw [hrun] at hinner <;>
    exact .within hlt hinner

theorem inStatement {parser : Parser α} (h : parser.Proceeds height known) (begin : Nat) :
    (inStatement begin parser).Proceeds height known := by
  intro taken state hknown
  have hleads := h taken state hknown
  unfold Parser.inStatement
  cases hrun : parser state <;> rw [hrun] at hleads <;> exact hleads

theorem construct {parser : Parser α} (h : parser.Proceeds height .nothing) (kind : Construct) :
    (construct kind parser).Proceeds height known :=
  bind (stays fun _ => rfl) fun _ => bind (note rfl) fun _ =>
    bind h fun _ => bind (note rfl) fun _ => stays fun _ => rfl

end Parser.Proceeds

/-! ## The grammar -/

/-- Composed parsers proceed when the inner ones do. -/
theorem Composed.proceeds {height : Nat} {inner : {α : Type} → Parser α → Prop}
    (hinner : ∀ {α : Type} {parser : Parser α}, inner parser → parser.Proceeds height .nothing)
    {α : Type} {known : Known} {parser : Parser α} (h : Composed inner known parser) :
    parser.Proceeds height known := by
  induction h with
  | inner h => exact hinner h
  | spanned make h =>
      exact .bind (.stays fun _ => rfl) fun _ => .bind (hinner h) fun _ => .stays fun _ => rfl
  | pure value => exact .stays fun _ => rfl
  | bind _ _ _ ihfirst ihrest => exact .bind ihfirst ihrest
  | atEnd _ _ ih => exact .bind (.stays fun _ => rfl) ih
  | spanFrom => exact .stays fun _ => rfl
  | note hevent => exact .note (by cases hevent <;> rfl)
  | peek? _ _ _ _ ihnone ihsome => exact .bind_peek? ihnone ihsome
  | peek _ ih => exact .bind_peek ih
  | take _ ih => exact .bind_take ih
  | failNext | failBehind => exact .stays fun _ => rfl
  | repeated value hadvances _ _ _ ihfirst ihnext => exact .repeated hadvances ihfirst ihnext
  | unaware _ ih => exact .unaware ih

/-- What is composed of operations on tokens alone proceeds. -/
theorem Parser.Proceeds.of_composed {height : Nat} {α : Type} {known : Known} {parser : Parser α}
    (h : Composed (fun _ => False) known parser) : parser.Proceeds height known :=
  h.proceeds False.elim

/-- A statement and its redundant semicolons proceed when the statement does. -/
theorem Parser.Proceeds.terminated {height : Nat} {body : Parser Statement}
    (h : (Parser.construct .statement body).Proceeds height .nothing) :
    (Level.terminated body).Proceeds height .nothing :=
  .bind (.stays fun _ => rfl) fun start => .bind (h.inStatement start) fun _ =>
    .bind (.of_composed .semicolons) fun _ => .stays fun _ => rfl

/-- The parsers of a level proceed with so many levels left to open. -/
structure Level.Proceeds (level : Level) (height : Nat) : Prop where
  expr (mode) : (level.expr mode).Proceeds height .nothing
  statement : level.statement.Proceeds height .nothing

theorem Level.Proceeds.of_has {level : Level} {height : Nat} (h : level.Proceeds height) {α : Type}
    {parser : Parser α} (hhas : level.Has parser) : parser.Proceeds height .nothing := by
  cases hhas with
  | expr mode => exact h.expr mode
  | statement => exact h.statement

/-- Every level of the grammar proceeds with as many levels left to open as are below it. -/
theorem proceeds_ofHeight (height : Nat) : (Level.ofHeight height).Proceeds height := by
  induction height with
  | zero =>
      have hdeep {α : Type} : (tooDeep : Parser α).Proceeds 0 .nothing := .stays fun _ => rfl
      exact ⟨fun _ => hdeep.construct _, .terminated (hdeep.construct _)⟩
  | succ height ih =>
      have hgrammatical := grammatical_ofHeight height
      have hresolute := resolute_ofHeight height
      have hexpression (mode : Mode) := hgrammatical.composed_expression hresolute mode
      have hbody := hgrammatical.composed_statementBody hresolute
      exact ⟨fun mode => ((hexpression mode).proceeds ih.of_has).within.construct _,
        .terminated ((hbody.proceeds ih.of_has).within.construct _)⟩

end Scriptlet
