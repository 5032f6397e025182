import Scriptlet.Parse.Nesting
import Scriptlet.Proofs.Progress

/-!
# At the end of the text

A parser that starts where no text is left can take nothing. It *stalls*: it gives a value where it
is, or it fails because the text ends. Where as many levels are open as may be, it may fail for that
before it asks for a token: such a parser *gives up*, at the end of the text and everywhere else. A
level of the grammar does either the one or the other.
-/

namespace Scriptlet

open Scriptlet.Parser

/-- What a run comes to that starts at the end of the text: a value where it is, or a failure
because the text ends, or one for want of levels, where it may be. -/
inductive Stalled (deep : Prop) (finish : Place) {α : Type} :
    EStateM.Result Failure ParseState α → Prop where
  | ok {value stop} : stop.place = finish → Stalled deep finish (.ok value stop)
  | endOfInput {failure stop} :
      failure.cause = .endOfInput → Stalled deep finish (.error failure stop)
  | tooDeep {failure stop levels} :
      deep → failure.cause = .tooDeep levels → failure.offset = finish.cursor.offset →
      Stalled deep finish (.error failure stop)

namespace Stalled

variable {deep deep' : Prop} {finish : Place} {α β : Type}

theorem imp {outcome : EStateM.Result Failure ParseState α} (h : Stalled deep finish outcome)
    (himp : deep → deep') : Stalled deep' finish outcome := by
  cases h with
  | ok hplace => exact .ok hplace
  | endOfInput hcause => exact .endOfInput hcause
  | tooDeep hdeep hcause hoffset => exact .tooDeep (himp hdeep) hcause hoffset

/-- A run that fails stalls by its failure alone. -/
theorem of_error {failure : Failure} {stop : ParseState}
    (h : Stalled deep finish (.error failure stop : EStateM.Result Failure ParseState α))
    (other : ParseState) :
    Stalled deep finish (.error failure other : EStateM.Result Failure ParseState β) := by
  cases h with
  | endOfInput hcause => exact .endOfInput hcause
  | tooDeep hdeep hcause hoffset => exact .tooDeep hdeep hcause hoffset

/-- A run that stalls as part of a statement stalls as it does alone. -/
theorem inStatement {failure : Failure} {stop : ParseState}
    (h : Stalled deep finish (.error failure stop : EStateM.Result Failure ParseState α))
    (start : Nat) :
    Stalled deep finish
      (.error (failure.inStatement start) stop : EStateM.Result Failure ParseState α) := by
  obtain ⟨cause, offset, statement⟩ := failure
  cases h with
  | endOfInput hcause => exact .endOfInput (by cases statement <;> exact hcause)
  | tooDeep hdeep hcause hoffset =>
      exact .tooDeep hdeep (by cases statement <;> exact hcause)
        (by cases statement <;> exact hoffset)

end Stalled

/-- The failure of a run that lacks levels at a place. -/
def Failure.LacksLevels (failure : Failure) (here : Place) : Prop :=
  ∃ levels, failure.cause = .tooDeep levels ∧ failure.offset = here.cursor.offset

/-- It is one inside a statement as well. -/
theorem Failure.LacksLevels.inStatement {failure : Failure} {here : Place}
    (h : failure.LacksLevels here) (start : Nat) :
    (failure.inStatement start).LacksLevels here := by
  obtain ⟨levels, hcause, hoffset⟩ := h
  unfold Failure.inStatement
  split <;> exact ⟨levels, hcause, hoffset⟩

namespace Parser

variable {α β : Type} {deep : Prop}

/-- Every run that starts at the end of the text stalls there. -/
def Stalls (deep : Prop) (parser : Parser α) : Prop :=
  ∀ state : ParseState, state.place.Ended → Stalled deep state.place (parser state)

/-- Every run fails at the cursor for want of levels. -/
def GivesUp (parser : Parser α) : Prop :=
  ∀ here, parser.FailsWith here fun failure => failure.LacksLevels here

/-- Every run fails for want of levels, or every run that starts at the end of the text stalls for
another reason. -/
def Resolute (parser : Parser α) : Prop :=
  parser.GivesUp ∨ parser.Stalls False

/-! ## Parsers that stall -/

namespace Stalls

theorem pure (value : α) : (Pure.pure value : Parser α).Stalls deep :=
  fun _ _ => .ok rfl

/-- Two parsers in a row stall when both do, because the first leaves the second at the end. -/
theorem bind {first : Parser α} {rest : α → Parser β} (hfirst : first.Stalls deep)
    (hrest : ∀ value, (rest value).Stalls deep) : (first >>= rest).Stalls deep := by
  intro state hended
  rw [bind_run]
  have hstalled := hfirst state hended
  cases hrun : first state with
  | ok value reached =>
      rw [hrun] at hstalled
      cases hstalled with
      | ok hplace => exact hplace ▸ hrest value reached (hplace ▸ hended)
  | error failure stop =>
      rw [hrun] at hstalled
      exact hstalled.of_error stop

theorem offset : Parser.offset.Stalls deep :=
  fun _ _ => .ok rfl

theorem note (event : Event) : (Parser.note event).Stalls deep :=
  fun _ _ => .ok rfl

theorem spanFrom (start : Nat) : (Parser.spanFrom start).Stalls deep :=
  fun _ _ => .ok rfl

/-- What is made of a span stalls with a value. -/
theorem make (start : Nat) (make : Span → α) :
    (Parser.spanFrom start >>= fun span => Pure.pure (make span)).Stalls deep :=
  fun _ _ => .ok rfl

theorem bind_atEnd {rest : Bool → Parser α} (h : (rest true).Stalls deep) :
    (Parser.atEnd >>= rest).Stalls deep := by
  intro state hended
  have hempty : state.cursor.rest.isEmpty = true := List.isEmpty_iff.2 (Place.ended_iff.1 hended)
  show Stalled deep state.place (rest state.cursor.rest.isEmpty state)
  rw [hempty]
  exact h state hended

/-- No token is seen at the end of the text. -/
theorem bind_peek? {rest : Option Token → Parser α} (h : (rest none).Stalls deep) :
    (Parser.peek? >>= rest).Stalls deep := by
  intro state hended
  rw [bind_run, peek?_run, show state.cursor.peek = .ok none from hended]
  exact h state hended

theorem bind_next? {kind : Kind} {rest : Option Token → Parser α} (h : (rest none).Stalls deep) :
    (Parser.next? kind >>= rest).Stalls deep := by
  unfold Parser.next?
  rw [bind_assoc]
  exact bind_peek? h

/-- Where a token has to be there, the text ends too early. -/
theorem bind_peek (rest : Token → Parser α) : (Parser.peek >>= rest).Stalls deep := by
  unfold Parser.peek
  rw [bind_assoc]
  exact bind_peek? fun _ _ => .endOfInput rfl

theorem bind_next (rest : Token → Parser α) : (Parser.next >>= rest).Stalls deep := by
  unfold Parser.next
  rw [bind_assoc]
  exact bind_peek _

theorem bind_expect (kind : Kind) (expectation : Expectation) (rest : Token → Parser α) :
    (Parser.expect kind expectation >>= rest).Stalls deep := by
  unfold Parser.expect
  rw [bind_assoc]
  exact bind_peek _

/-- A loop stalls in its first round, because a round that goes on takes a token. -/
theorem repeated {step : α → Parser (Round α β)} (hadvances : Advances step) {value : α}
    (h : (step value).Stalls deep) : (repeated step value).Stalls deep := by
  intro state hended
  rw [repeated_run hadvances]
  have hround := h state hended
  cases hrun : step value state with
  | error failure stop =>
      rw [hrun] at hround
      exact hround.of_error stop
  | ok round reached =>
      rw [hrun] at hround
      cases hround with
      | ok hplace =>
          cases round with
          | done result => exact .ok hplace
          | again next =>
              have hlt := hadvances.length_lt hrun
              have hnone : state.cursor.rest = [] := Place.ended_iff.1 hended
              rw [hnone] at hlt
              exact absurd hlt (Nat.not_lt_zero _)

theorem many {item? : Parser (Option α)}
    (hadvances : ∀ {here item there}, item?.CanGive here (some item) there →
      there.cursor.rest.length < here.cursor.rest.length)
    (h : item?.Stalls deep) : (many item?).Stalls deep := by
  refine repeated (advances_many hadvances) (bind h fun item => ?_)
  cases item with
  | some item => exact pure _
  | none => exact pure _

/-- A construct stalls where what it holds does. -/
theorem construct {parser : Parser α} (h : parser.Stalls deep) (kind : Construct) :
    (construct kind parser).Stalls deep :=
  bind offset fun _ => bind (note _) fun _ => bind h fun _ => bind (note _) fun _ => pure _

theorem within {parser : Parser α} (h : parser.Stalls deep) : (within parser).Stalls deep := by
  intro state hended
  have hinner := h (state.atDepth (state.depth + 1)) hended
  rw [within_run]
  cases hrun : parser (state.atDepth (state.depth + 1)) with
  | ok value reached =>
      rw [hrun] at hinner
      cases hinner with
      | ok hplace => exact .ok hplace
  | error failure stop =>
      rw [hrun] at hinner
      exact hinner.of_error _

theorem inStatement {parser : Parser α} (h : parser.Stalls deep) (begin : Nat) :
    (inStatement begin parser).Stalls deep := by
  intro state hended
  have hinner := h state hended
  unfold Parser.inStatement
  cases hrun : parser state with
  | ok value reached =>
      rw [hrun] at hinner
      exact hinner
  | error failure stop =>
      rw [hrun] at hinner
      exact hinner.inStatement begin

end Stalls

/-! ## Parsers that give up -/

namespace GivesUp

variable {parser : Parser α}

theorem tooDeep : (Parser.tooDeep : Parser α).GivesUp := by
  rintro here start rfl
  exact ⟨_, _, rfl, start.depth, rfl, rfl⟩

/-- What follows a parser that gives up is not reached. -/
theorem bind (h : parser.GivesUp) (rest : α → Parser β) : (parser >>= rest).GivesUp :=
  fun here => (h here).bind_first rest

theorem bind_offset {rest : Nat → Parser α} (h : ∀ start, (rest start).GivesUp) :
    (Parser.offset >>= rest).GivesUp :=
  fun here => .bind .offset (h _ here)

theorem construct (h : parser.GivesUp) (kind : Construct) : (construct kind parser).GivesUp :=
  fun here => (h here).construct

theorem inStatement (h : parser.GivesUp) (begin : Nat) : (inStatement begin parser).GivesUp :=
  fun here => (h here).inStatement fun _ hfailure => hfailure.inStatement begin

theorem not_canGive (h : parser.GivesUp) {here there : Place} {value : α} :
    ¬ parser.CanGive here value there := by
  rintro ⟨start, stop, -, -, hrun⟩
  obtain ⟨_, _, herror, -⟩ := h start.place start rfl
  rw [hrun] at herror
  cases herror

end GivesUp

namespace Resolute

variable {parser : Parser α}

/-- At the end of the text a resolute parser stalls, for whatever reason. -/
theorem stalls (h : parser.Resolute) : parser.Stalls True := by
  rcases h with hgivesUp | hstalls
  · intro state _
    obtain ⟨failure, stop, hrun, levels, hcause, hoffset⟩ := hgivesUp state.place state rfl
    rw [hrun]
    exact .tooDeep trivial hcause hoffset
  · exact fun state hended => (hstalls state hended).imp False.elim

/-- A resolute parser that gives a value anywhere does not give up at the end of the text. -/
theorem stalls_of_canGive (h : parser.Resolute) {here there : Place} {value : α}
    (hgiven : parser.CanGive here value there) : parser.Stalls False :=
  h.resolve_left fun hgivesUp => hgivesUp.not_canGive hgiven

/-- What is made of the value and the span of a resolute parser is resolute. -/
theorem spanned (h : parser.Resolute) (make : α → Span → β) :
    (offset >>= fun start => parser >>= fun value => spanFrom start >>= fun span =>
      pure (make value span)).Resolute :=
  h.imp (fun hgivesUp => .bind_offset fun _ => hgivesUp.bind _) fun hstalls =>
    .bind .offset fun start => .bind hstalls fun _ => .make start _

end Resolute

end Parser

/-! ## Levels -/

/-- The parsers of a level are resolute. -/
structure Level.Resolute (level : Level) : Prop where
  expr (mode) : (level.expr mode).Resolute
  statement : level.statement.Resolute

theorem Level.Resolute.slot {level : Level} (h : level.Resolute) (mode : Mode) :
    (level.slot mode).Resolute :=
  (h.expr mode).spanned _

/-- Every level is resolute: the lowest gives up, above it every construct starts with a token. -/
theorem resolute_ofHeight (height : Nat) : (Level.ofHeight height).Resolute := by
  cases height with
  | zero =>
      exact ⟨fun _ => .inl (.construct .tooDeep _),
        .inl (.bind_offset fun start => ((GivesUp.construct .tooDeep _).inStatement start).bind _)⟩
  | succ height =>
      refine ⟨fun mode => .inr (.construct (.within (.bind_peek _)) _), .inr ?_⟩
      refine .bind .offset fun start =>
        .bind (.inStatement (.construct (.within (.bind_peek _)) _) start) fun _ =>
          .bind (.many length_lt_of_next? (.bind_peek? (.pure none))) fun _ => .pure _

end Scriptlet
