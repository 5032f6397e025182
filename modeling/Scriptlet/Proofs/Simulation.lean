import Scriptlet.Proofs.Likeness
import Scriptlet.Proofs.Repetition

/-!
# Two runs side by side

A `Simulation` says when two runs of the parser go alike: how their states, the offsets they start
constructs at, their spans and their failures are related. `Agrees` says that two runs end alike,
with related results or with related failures; a simulation may also let the first run give up
where the second goes on. `Lawful` lists what the operations of a parser need of a simulation, and
each operation has one rule here, so that what the grammar does is shown for all simulations at
once.
-/

namespace Scriptlet

/-- What is the same in two runs of the parser, and how what differs is related. -/
structure Simulation where
  state : ParseState → ParseState → Prop
  /-- The offsets where constructs start. -/
  start : Nat → Nat → Prop
  /-- The offsets where they stop. -/
  stop : Nat → Nat → Prop
  span : Span → Span → Prop
  failure : Failure → Failure → Prop
  /-- The failures of the first run that say nothing of the second. -/
  gaveUp : Failure → Prop

/-- The token that was taken in an event. -/
def Event.token? : Event → Option Token
  | .token taken => some taken
  | _ => none

namespace Simulation

/-- Tokens that differ in their span. -/
structure Tokens (sim : Simulation) (token other : Token) : Prop where
  kind : token.kind = other.kind
  text : token.text = other.text
  span : sim.span token.span other.span

/-- The next tokens of two states, which may be taken. -/
structure Next (sim : Simulation) (left right : ParseState) (token other : Token) :
    Prop where
  leftNext : left.place.Next token
  rightNext : right.place.Next other
  alike : sim.Tokens token other
  took : sim.state (left.took token) (right.took other)

/-- What two states have next. -/
inductive Peeks (sim : Simulation) (left right : ParseState) : Prop where
  | ended :
      left.place.Ended → right.place.Ended →
      sim.failure ⟨.endOfInput, left.cursor.offset, none⟩ ⟨.endOfInput, right.cursor.offset, none⟩ →
      Peeks sim left right
  | next {token other} : sim.Next left right token other → Peeks sim left right
  | fault {failure other} :
      left.cursor.peek = .error failure → right.cursor.peek = .error other →
      sim.failure failure other → Peeks sim left right

/-- The causes that two runs refuse a text for, at a token or before one. -/
inductive Refusal (sim : Simulation) : Cause → Cause → Prop where
  | unexpected (expectation) {token other} :
      sim.Tokens token other →
      Refusal sim (.unexpected expectation token) (.unexpected expectation other)
  | unsupportedStatement (word) :
      Refusal sim (.unsupportedStatement word) (.unsupportedStatement word)
  | tooDeep (levels) : Refusal sim (.tooDeep levels) (.tooDeep levels)
  | notRebindable (cause) : Refusal sim (.notRebindable cause) (.notRebindable cause)
  | reservedName (word) : Refusal sim (.reservedName word) (.reservedName word)

section

variable {sim : Simulation} {cause cause' : Cause}

theorem Refusal.kind_eq (h : sim.Refusal cause cause') : cause.kind = cause'.kind := by
  cases h <;> rfl

/-- Tokens that differ in their span are quoted alike, so both runs say the same. -/
theorem Refusal.message_eq (h : sim.Refusal cause cause') : cause.message = cause'.message := by
  cases h with
  | @unexpected expectation token other htoken =>
      have hquoted : token.quoted = other.quoted := by
        unfold Token.quoted
        rw [htoken.kind, htoken.text]
      exact congrArg (fun quoted => expectation.message ++ ", found `" ++ quoted ++ "`") hquoted
  | unsupportedStatement | tooDeep | notRebindable | reservedName => rfl

/-- Where related spans are the same, a text is refused for the same cause. -/
theorem Refusal.eq (h : sim.Refusal cause cause')
    (hspan : ∀ span other, sim.span span other → span = other) : cause = cause' := by
  cases h with
  | @unexpected _ token other htoken =>
      obtain ⟨kind, word, span⟩ := token
      obtain ⟨kind', word', span'⟩ := other
      obtain ⟨rfl, rfl, hrelated⟩ := htoken
      rw [hspan span span' hrelated]
  | unsupportedStatement | tooDeep | notRebindable | reservedName => rfl

end

/-- What the operations of a parser need of a simulation. -/
structure Lawful (sim : Simulation) : Prop where
  depth_eq {left right} : sim.state left right → left.depth = right.depth
  atDepth {left right} (depth) :
    sim.state left right → sim.state (left.atDepth depth) (right.atDepth depth)
  noted {left right event other} :
    event.token? = none → other.token? = none → sim.state left right →
      sim.state (left.noted event) (right.noted other)
  peeks {left right} : sim.state left right → sim.Peeks left right
  offset {left right} : sim.state left right → sim.start left.cursor.offset right.cursor.offset
  lastStop {left right} : sim.state left right → sim.stop left.lastStop right.lastStop
  span_offset {span other} : sim.span span other → sim.start span.offset other.offset
  span_stop {span other} : sim.span span other → sim.stop span.stop other.stop
  between {start start' stop stop'} :
    sim.start start start' → sim.stop stop stop' →
      sim.span (.between start stop) (.between start' stop')
  refused {cause cause' offset other} :
    sim.Refusal cause cause' → sim.start offset other →
      sim.failure ⟨cause, offset, none⟩ ⟨cause', other, none⟩
  inStatement {failure failure' start other} :
    sim.failure failure failure' → sim.start start other →
      sim.failure (failure.inStatement start) (failure'.inStatement other)
  gaveUp_inStatement {failure} (start) :
    sim.gaveUp failure → sim.gaveUp (failure.inStatement start)

/-- Two runs end alike. -/
inductive Agrees (sim : Simulation) {α β : Type} (value : α → β → Prop) :
    EStateM.Result Failure ParseState α → EStateM.Result Failure ParseState β → Prop where
  | ok {result other left right} :
      value result other → sim.state left right →
      Agrees sim value (.ok result left) (.ok other right)
  | error {failure other left right} :
      sim.failure failure other → sim.state left right →
      Agrees sim value (.error failure left) (.error other right)
  | gaveUp {failure left end'} : sim.gaveUp failure → Agrees sim value (.error failure left) end'

/-- How two rounds end alike. -/
inductive Rounds {α α' β β' : Type} (value : α → α' → Prop) (result : β → β' → Prop) :
    Round α β → Round α' β' → Prop where
  | again {next other} : value next other → Rounds value result (.again next) (.again other)
  | done {found other} : result found other → Rounds value result (.done found) (.done other)

namespace Agrees

open Scriptlet.Parser

variable {sim : Simulation} {α α' β β' : Type} {left right : ParseState}
  {value : α → α' → Prop} {result : β → β' → Prop} {token other : Token}

/-! ## Operations of every simulation -/

theorem pure {found : α} {found' : α'} (hvalue : value found found')
    (hstate : sim.state left right) :
    sim.Agrees value ((Pure.pure found : Parser α) left) ((Pure.pure found' : Parser α') right) :=
  .ok hvalue hstate

/-- Two parsers in a row end as the second ends where the first one stops. -/
theorem bind {first : Parser α} {first' : Parser α'} {rest : α → Parser β} {rest' : α' → Parser β'}
    (hfirst : sim.Agrees value (first left) (first' right))
    (hrest : ∀ {found found' left right}, value found found' → sim.state left right →
      sim.Agrees result (rest found left) (rest' found' right)) :
    sim.Agrees result ((first >>= rest) left) ((first' >>= rest') right) := by
  show sim.Agrees result (EStateM.bind first rest left) (EStateM.bind first' rest' right)
  unfold EStateM.bind
  generalize first left = outcome at hfirst ⊢
  generalize first' right = outcome' at hfirst ⊢
  cases hfirst with
  | ok hvalue hstate => exact hrest hvalue hstate
  | error hfailure hstate => exact .error hfailure hstate
  | gaveUp hfailure => exact .gaveUp hfailure

/-- What follows the taking of the next tokens ends as it does behind them. -/
theorem bind_take {rest : Unit → Parser β} {rest' : Unit → Parser β'}
    (hnext : sim.Next left right token other)
    (hrest : sim.state (left.took token) (right.took other) →
      sim.Agrees result (rest () (left.took token)) (rest' () (right.took other))) :
    sim.Agrees result ((take token >>= rest) left) ((take other >>= rest') right) :=
  hrest hnext.took

section

variable (h : sim.Lawful) (hstate : sim.state left right)

include h hstate

/-- What follows the offset starts at related offsets. -/
theorem bind_offset {rest : Nat → Parser β} {rest' : Nat → Parser β'}
    (hrest : sim.start left.cursor.offset right.cursor.offset →
      sim.Agrees result (rest left.cursor.offset left) (rest' right.cursor.offset right)) :
    sim.Agrees result ((offset >>= rest) left) ((offset >>= rest') right) :=
  hrest (h.offset hstate)

theorem spanFrom {start start' : Nat} (hstart : sim.start start start') :
    sim.Agrees sim.span (spanFrom start left) (spanFrom start' right) :=
  .ok (h.between hstart (h.lastStop hstate)) hstate

/-- What is made of a span is made of related spans. -/
theorem bind_spanFrom {start start' : Nat} {make : Span → α} {make' : Span → α'}
    (hstart : sim.start start start')
    (hmake : ∀ {span other}, sim.span span other → value (make span) (make' other)) :
    sim.Agrees value ((Parser.spanFrom start >>= fun span => Pure.pure (make span)) left)
      ((Parser.spanFrom start' >>= fun span => Pure.pure (make' span)) right) :=
  bind (spanFrom h hstate hstart) fun hspan hstate => .pure (hmake hspan) hstate

/-- What follows a note ends as it does with the event noted down. -/
theorem bind_note {event event' : Event} {rest : Unit → Parser β} {rest' : Unit → Parser β'}
    (hevent : event.token? = none) (hevent' : event'.token? = none)
    (hrest : sim.state (left.noted event) (right.noted event') →
      sim.Agrees result (rest () (left.noted event)) (rest' () (right.noted event'))) :
    sim.Agrees result ((note event >>= rest) left) ((note event' >>= rest') right) :=
  hrest (h.noted hevent hevent' hstate)

/-- Runs that refuse alike end alike. -/
theorem fail {cause cause' : Cause} {offset offset' : Nat} (hcause : sim.Refusal cause cause')
    (hoffset : sim.start offset offset') :
    sim.Agrees value ((fail cause offset : Parser α) left)
      ((fail cause' offset' : Parser α') right) :=
  .error (h.refused hcause hoffset) hstate

theorem unexpected (expectation : Expectation) (htoken : sim.Tokens token other) :
    sim.Agrees value ((unexpected expectation token : Parser α) left)
      ((unexpected expectation other : Parser α') right) :=
  fail h hstate (.unexpected expectation htoken) (h.span_offset htoken.span)

theorem tooDeep :
    sim.Agrees value ((tooDeep : Parser α) left) ((tooDeep : Parser α') right) := by
  show sim.Agrees value (Parser.fail (.tooDeep left.depth) left.cursor.offset left)
    (Parser.fail (.tooDeep right.depth) right.cursor.offset right)
  rw [h.depth_eq hstate]
  exact fail h hstate (.tooDeep _) (h.offset hstate)

/-! ## The next token -/

/-- What follows a look at the next tokens: both texts end, or both go on with related tokens. -/
theorem bind_peek? {rest : Option Token → Parser β}
    {rest' : Option Token → Parser β'}
    (hnone : sim.failure ⟨.endOfInput, left.cursor.offset, none⟩
        ⟨.endOfInput, right.cursor.offset, none⟩ →
      sim.Agrees result (rest none left) (rest' none right))
    (hsome : ∀ {token other}, sim.Next left right token other →
      sim.Agrees result (rest (some token) left) (rest' (some other) right)) :
    sim.Agrees result ((peek? >>= rest) left) ((peek? >>= rest') right) := by
  show sim.Agrees result (EStateM.bind peek? rest left) (EStateM.bind peek? rest' right)
  unfold EStateM.bind
  rw [peek?_run, peek?_run]
  cases h.peeks hstate with
  | ended hleft hright hfailure =>
      rw [show left.cursor.peek = .ok none from hleft,
        show right.cursor.peek = .ok none from hright]
      exact hnone hfailure
  | @next token other hnext =>
      rw [show left.cursor.peek = .ok (some token) from hnext.leftNext,
        show right.cursor.peek = .ok (some other) from hnext.rightNext]
      exact hsome hnext
  | fault hleft hright hfailure =>
      rw [hleft, hright]
      exact .error hfailure hstate

theorem bind_peek {rest : Token → Parser β} {rest' : Token → Parser β'}
    (hrest : ∀ {token other}, sim.Next left right token other →
      sim.Agrees result (rest token left) (rest' other right)) :
    sim.Agrees result ((peek >>= rest) left) ((peek >>= rest') right) := by
  unfold Parser.peek
  rw [bind_assoc, bind_assoc]
  refine bind_peek? h hstate (fun hfailure => .error hfailure hstate) fun hnext => ?_
  simp only [pure_bind]
  exact hrest hnext

theorem next : sim.Agrees sim.Tokens (next left) (next right) :=
  bind_peek h hstate fun hnext => bind_take hnext fun hstate => .pure hnext.alike hstate

theorem expect (kind : Kind) (expectation : Expectation) :
    sim.Agrees sim.Tokens (expect kind expectation left) (expect kind expectation right) := by
  refine bind_peek h hstate fun {token other} hnext => ?_
  by_cases hkind : token.kind = kind
  · rw [if_pos hkind, if_pos (hnext.alike.kind ▸ hkind)]
    exact bind_take hnext fun hstate => .pure hnext.alike hstate
  · rw [if_neg hkind, if_neg (hnext.alike.kind ▸ hkind)]
    exact unexpected h hstate expectation hnext.alike

theorem next? (kind : Kind) :
    sim.Agrees (Option.Rel sim.Tokens) (next? kind left) (next? kind right) := by
  refine bind_peek? h hstate (fun _ => .pure .none hstate) fun {token other} hnext => ?_
  simp only
  by_cases hkind : token.kind = kind
  · rw [if_pos hkind, if_pos (hnext.alike.kind ▸ hkind)]
    exact bind_take hnext fun hstate => .pure (.some hnext.alike) hstate
  · rw [if_neg hkind, if_neg (hnext.alike.kind ▸ hkind)]
    exact .pure .none hstate

/-- Both texts are at their end or neither is. -/
theorem bind_atEnd {rest : Bool → Parser β} {rest' : Bool → Parser β'}
    (hrest : ∀ ended, sim.Agrees result (rest ended left) (rest' ended right)) :
    sim.Agrees result ((atEnd >>= rest) left) ((atEnd >>= rest') right) := by
  show sim.Agrees result (rest left.cursor.rest.isEmpty left)
    (rest' right.cursor.rest.isEmpty right)
  have hended : left.cursor.rest.isEmpty = right.cursor.rest.isEmpty := by
    rw [Bool.eq_iff_iff, List.isEmpty_iff, List.isEmpty_iff]
    show left.place.cursor.rest = [] ↔ right.place.cursor.rest = []
    rw [← Place.ended_iff, ← Place.ended_iff]
    cases h.peeks hstate with
    | ended hleft hright => exact iff_of_true hleft hright
    | next hnext => exact iff_of_false hnext.leftNext.not_ended hnext.rightNext.not_ended
    | fault hleft hright =>
        refine iff_of_false ?_ ?_ <;> simp [Place.Ended, ParseState.place, hleft, hright]
  rw [hended]
  exact hrest _

end

/-! ## Constructs -/

variable (h : sim.Lawful)

include h

theorem within {parser : Parser α} {parser' : Parser α'} (hstate : sim.state left right)
    (hparser : ∀ {left right}, sim.state left right →
      sim.Agrees value (parser left) (parser' right)) :
    sim.Agrees value (within parser left) (within parser' right) := by
  have hdepth := h.depth_eq hstate
  have hinner := hparser (h.atDepth (left.depth + 1) hstate)
  rw [within_run, within_run, ← hdepth]
  generalize parser (left.atDepth (left.depth + 1)) = outcome at hinner ⊢
  generalize parser' (right.atDepth (left.depth + 1)) = outcome' at hinner ⊢
  cases hinner with
  | ok hvalue hstate =>
      refine .ok hvalue ?_
      rw [h.depth_eq hstate]
      exact h.atDepth _ hstate
  | error hfailure hstate =>
      refine .error hfailure ?_
      rw [h.depth_eq hstate]
      exact h.atDepth _ hstate
  | gaveUp hfailure => exact .gaveUp hfailure

theorem construct {parser : Parser α} {parser' : Parser α'} (kind : Construct)
    (hstate : sim.state left right)
    (hparser : ∀ {left right}, sim.state left right →
      sim.Agrees value (parser left) (parser' right)) :
    sim.Agrees value (construct kind parser left) (construct kind parser' right) :=
  bind_offset h hstate fun _ => bind_note h hstate rfl rfl fun hstate =>
    bind (hparser hstate) fun hvalue hstate => bind_note h hstate rfl rfl fun hstate =>
      .pure hvalue hstate

theorem inStatement {parser : Parser α} {parser' : Parser α'} {start start' : Nat}
    (hstart : sim.start start start') (hparser : sim.Agrees value (parser left) (parser' right)) :
    sim.Agrees value (inStatement start parser left) (inStatement start' parser' right) := by
  unfold Parser.inStatement
  generalize parser left = outcome at hparser ⊢
  generalize parser' right = outcome' at hparser ⊢
  cases hparser with
  | ok hvalue hstate => exact .ok hvalue hstate
  | error hfailure hstate => exact .error (h.inStatement hfailure hstart) hstate
  | gaveUp hfailure => exact .gaveUp (h.gaveUp_inStatement start hfailure)

/-! ## Loops -/

omit h in
/-- Loops whose steps advance and end alike end alike. -/
theorem repeated {step : α → Parser (Round α β)} {step' : α' → Parser (Round α' β')}
    (hadvances : Advances step) (hadvances' : Advances step')
    (hstep : ∀ {found found' left right}, value found found' → sim.state left right →
      sim.Agrees (Rounds value result) (step found left) (step' found' right))
    {found : α} {found' : α'} (hvalue : value found found') (hstate : sim.state left right) :
    sim.Agrees result (repeated step found left) (repeated step' found' right) := by
  induction hlength : left.cursor.rest.length using Nat.strongRecOn
    generalizing left right found found' with
  | ind length ih =>
      have hround := hstep hvalue hstate
      rw [repeated_run hadvances, repeated_run hadvances']
      generalize hfirst : step found left = first at hround ⊢
      generalize step' found' right = first' at hround ⊢
      cases hround with
      | ok hrounds hstate =>
          cases hrounds with
          | again hnext => exact ih _ (hlength ▸ hadvances.length_lt hfirst) hnext hstate rfl
          | done hresult => exact .ok hresult hstate
      | error hfailure hstate => exact .error hfailure hstate
      | gaveUp hfailure => exact .gaveUp hfailure

omit h in
theorem many {item? : Parser (Option α)} {item?' : Parser (Option α')}
    (hadvances : ∀ {here item there}, item?.CanGive here (some item) there →
      there.cursor.rest.length < here.cursor.rest.length)
    (hadvances' : ∀ {here item there}, item?'.CanGive here (some item) there →
      there.cursor.rest.length < here.cursor.rest.length)
    (hitem : ∀ {left right}, sim.state left right →
      sim.Agrees (Option.Rel value) (item? left) (item?' right))
    (hstate : sim.state left right) :
    sim.Agrees (List.Forall₂ value) (many item? left) (many item?' right) := by
  unfold Parser.many
  refine repeated (advances_many hadvances) (advances_many hadvances')
    (fun {items items' left right} (hitems : List.Forall₂ value items items') hstate =>
      bind (hitem hstate) fun hitem hstate => ?_) .nil hstate
  cases hitem with
  | some hitem => exact .pure (.again (.cons hitem hitems)) hstate
  | none => exact .pure (.done (List.rel_reverse hitems)) hstate

theorem separated {item : Parser α} {item' : Parser α'} (separator : Expectation)
    (hle : ∀ {here value there}, item.CanGive here value there →
      there.cursor.rest.length ≤ here.cursor.rest.length)
    (hle' : ∀ {here value there}, item'.CanGive here value there →
      there.cursor.rest.length ≤ here.cursor.rest.length)
    (hitem : ∀ {left right}, sim.state left right → sim.Agrees value (item left) (item' right))
    (hstate : sim.state left right) :
    sim.Agrees (List.Forall₂ value) (separated item separator left)
      (separated item' separator right) := by
  refine bind (next? h hstate .closeRound) fun hclose hstate => ?_
  cases hclose with
  | some _ => exact .pure .nil hstate
  | none =>
      refine repeated (advances_separated hle) (advances_separated hle')
        (fun {items items' left right} (hitems : List.Forall₂ value items items') hstate => ?_)
        .nil hstate
      refine bind (hitem hstate) fun hvalue hstate =>
        bind (next h hstate) fun {token other _ _} htoken hstate => ?_
      rw [← htoken.kind]
      cases token.kind with
      | comma => exact .pure (.again (.cons hvalue hitems)) hstate
      | closeRound => exact .pure (.done (List.rel_reverse (.cons hvalue hitems))) hstate
      | _ => exact unexpected h hstate separator htoken

end Agrees

end Simulation

end Scriptlet
