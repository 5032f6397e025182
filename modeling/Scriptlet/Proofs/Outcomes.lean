import Scriptlet.Parse.Repeat
import Scriptlet.Proofs.Reading

/-!
# Outcomes of parsers

What a parser gives hangs on the place it starts from, not on the depth or the journal of its
state. `CanGive parser here value there` says that some run from `here` gives the value and stops
at `there`, and `Gives` says the same of every run. What can be given is taken apart along the
operations of a parser, and what is given is put together along them.
-/

namespace Scriptlet.Parser

variable {α β : Type} {here there middle : Place} {token : Token}

/-- Some run from one place gives the value and stops at the other place. -/
def CanGive (parser : Parser α) (here : Place) (value : α) (there : Place) : Prop :=
  ∃ start stop, start.place = here ∧ stop.place = there ∧ parser start = .ok value stop

/-- Every run from one place gives the value and stops at the other place, with as many levels
open as at its start. -/
def Gives (parser : Parser α) (here : Place) (value : α) (there : Place) : Prop :=
  ∀ start : ParseState, start.place = here →
    ∃ stop, stop.place = there ∧ stop.depth = start.depth ∧ parser start = .ok value stop

/-- Every run from a place fails, and so that the description of the failure is true. -/
def FailsWith (parser : Parser α) (here : Place) (described : Failure → Prop) : Prop :=
  ∀ start : ParseState, start.place = here →
    ∃ failure stop, parser start = .error failure stop ∧ described failure

/-- Every run from a place fails for the cause, at the offset. -/
def Fails (parser : Parser α) (here : Place) (cause : Cause) (offset : Nat) : Prop :=
  ∀ start : ParseState, start.place = here →
    ∃ failure stop, parser start = .error failure stop ∧ failure.cause = cause ∧
      failure.offset = offset

/-- Looking at the next token leaves the state as it is. -/
theorem peek?_run (state : ParseState) :
    peek? state = match state.cursor.peek with
      | .ok token => .ok token state
      | .error failure => .error failure state := by
  simp only [peek?, bind, EStateM.bind, get, getThe, MonadStateOf.get]
  delta EStateM.get
  dsimp only
  cases state.cursor.peek <;> rfl

/-- The second of two parsers in a row runs where the first one stops. -/
theorem bind_run (first : Parser α) (rest : α → Parser β) (state : ParseState) :
    (first >>= rest) state = match first state with
      | .ok value reached => rest value reached
      | .error failure reached => .error failure reached := by
  show EStateM.bind first rest state = _
  unfold EStateM.bind
  cases first state <;> rfl

/-- A parser that runs one level deeper leaves the level again. -/
theorem within_run (parser : Parser α) (state : ParseState) :
    within parser state = match parser (state.atDepth (state.depth + 1)) with
      | .ok value reached => .ok value (reached.atDepth (reached.depth - 1))
      | .error failure reached => .error failure (reached.atDepth (reached.depth - 1)) :=
  rfl

/-! ## Taking apart what can be given -/

namespace CanGive

theorem pure {value given : α} (h : (Pure.pure value : Parser α).CanGive here given there) :
    value = given ∧ here = there := by
  obtain ⟨start, stop, rfl, rfl, hrun⟩ := h
  cases hrun
  exact ⟨rfl, rfl⟩

/-- Two parsers in a row give what the second gives where the first stopped. -/
theorem bind {first : Parser α} {rest : α → Parser β} {value : β}
    (h : (first >>= rest).CanGive here value there) :
    ∃ given middle, first.CanGive here given middle ∧ (rest given).CanGive middle value there := by
  obtain ⟨start, stop, rfl, rfl, hrun⟩ := h
  change EStateM.bind first rest start = _ at hrun
  simp only [EStateM.bind] at hrun
  split at hrun
  · next given reached hfirst =>
    exact ⟨given, reached.place, ⟨start, reached, rfl, rfl, hfirst⟩,
      ⟨reached, stop, rfl, rfl, hrun⟩⟩
  · cases hrun

theorem fail {cause : Cause} {offset : Nat} {value : α}
    (h : (Parser.fail cause offset : Parser α).CanGive here value there) : False := by
  obtain ⟨start, stop, rfl, rfl, hrun⟩ := h
  cases hrun

theorem offset {value : Nat} (h : Parser.offset.CanGive here value there) :
    value = here.cursor.offset ∧ here = there := by
  obtain ⟨start, stop, rfl, rfl, hrun⟩ := h
  cases hrun
  exact ⟨rfl, rfl⟩

theorem atEnd {value : Bool} (h : Parser.atEnd.CanGive here value there) :
    value = here.cursor.rest.isEmpty ∧ here = there := by
  obtain ⟨start, stop, rfl, rfl, hrun⟩ := h
  cases hrun
  exact ⟨rfl, rfl⟩

theorem spanFrom {begin : Nat} {span : Span}
    (h : (Parser.spanFrom begin).CanGive here span there) :
    span = .between begin here.lastStop ∧ here = there := by
  obtain ⟨start, stop, rfl, rfl, hrun⟩ := h
  cases hrun
  exact ⟨rfl, rfl⟩

theorem note {event : Event} {value : Unit} (h : (Parser.note event).CanGive here value there) :
    here = there := by
  obtain ⟨start, stop, rfl, rfl, hrun⟩ := h
  cases hrun
  rfl

theorem take {value : Unit} (h : (Parser.take token).CanGive here value there) :
    there = here.past token := by
  obtain ⟨start, stop, rfl, rfl, hrun⟩ := h
  cases hrun
  rfl

/-- What follows the taking of a token is given behind that token. -/
theorem bind_take {rest : Unit → Parser α} {value : α}
    (h : (Parser.take token >>= rest).CanGive here value there) :
    (rest ()).CanGive (here.past token) value there := by
  obtain ⟨_, _, htake, hrest⟩ := bind h
  obtain rfl := take htake
  exact hrest

/-- What is made of a span is made of the span up to the last token. -/
theorem bind_spanFrom {begin : Nat} {make : Span → α} {value : α}
    (h : (Parser.spanFrom begin >>= fun span => Pure.pure (make span)).CanGive here value there) :
    make (.between begin here.lastStop) = value ∧ here = there := by
  obtain ⟨_, _, hspan, hrest⟩ := bind h
  obtain ⟨rfl, rfl⟩ := spanFrom hspan
  exact pure hrest

theorem peek? {value : Option Token} (h : Parser.peek?.CanGive here value there) :
    here.cursor.peek = .ok value ∧ here = there := by
  obtain ⟨start, stop, rfl, rfl, hrun⟩ := h
  rw [peek?_run] at hrun
  split at hrun
  · next found hfound =>
    cases hrun
    exact ⟨hfound, rfl⟩
  · cases hrun

theorem failAtEnd {value : α} (h : (Parser.failAtEnd : Parser α).CanGive here value there) :
    False := by
  obtain ⟨_, _, _, h⟩ := bind h
  exact fail h

theorem unexpected {expectation : Expectation} {value : α}
    (h : (Parser.unexpected expectation token : Parser α).CanGive here value there) : False :=
  fail h

theorem peek (h : Parser.peek.CanGive here token there) : here.Next token ∧ here = there := by
  obtain ⟨found, _, hpeek, h⟩ := bind h
  obtain ⟨hfound, rfl⟩ := peek? hpeek
  cases found with
  | none => exact (failAtEnd h).elim
  | some found =>
      obtain ⟨rfl, rfl⟩ := pure h
      exact ⟨hfound, rfl⟩

theorem next (h : Parser.next.CanGive here token there) :
    here.Next token ∧ there = here.past token := by
  obtain ⟨found, _, hpeek, h⟩ := bind h
  obtain ⟨hfound, rfl⟩ := peek hpeek
  obtain ⟨rfl, rfl⟩ := (bind_take h).pure
  exact ⟨hfound, rfl⟩

theorem expect {kind : Kind} {expectation : Expectation}
    (h : (Parser.expect kind expectation).CanGive here token there) :
    here.Next token ∧ token.kind = kind ∧ there = here.past token := by
  obtain ⟨found, _, hpeek, h⟩ := bind h
  obtain ⟨hfound, rfl⟩ := peek hpeek
  split at h
  · next hkind =>
    obtain ⟨rfl, rfl⟩ := (bind_take h).pure
    exact ⟨hfound, hkind, rfl⟩
  · exact (unexpected h).elim

theorem next? {kind : Kind} {value : Option Token}
    (h : (Parser.next? kind).CanGive here value there) :
    (∃ token, value = some token ∧ here.Next token ∧ token.kind = kind ∧ there = here.past token) ∨
      (value = none ∧ here = there ∧
        (here.Ended ∨ ∃ token, here.Next token ∧ token.kind ≠ kind)) := by
  obtain ⟨found, _, hpeek, h⟩ := bind h
  obtain ⟨hfound, rfl⟩ := peek? hpeek
  cases found with
  | none =>
      obtain ⟨rfl, rfl⟩ := pure h
      exact .inr ⟨rfl, rfl, .inl hfound⟩
  | some token =>
      simp only at h
      split at h
      · next hkind =>
        obtain ⟨rfl, rfl⟩ := (bind_take h).pure
        exact .inl ⟨token, rfl, hfound, hkind, rfl⟩
      · next hkind =>
        obtain ⟨rfl, rfl⟩ := pure h
        exact .inr ⟨rfl, rfl, .inr ⟨token, hfound, hkind⟩⟩

theorem construct {kind : Construct} {parser : Parser α} {value : α}
    (h : (Parser.construct kind parser).CanGive here value there) :
    parser.CanGive here value there := by
  obtain ⟨_, _, hoffset, h⟩ := bind h
  obtain ⟨rfl, rfl⟩ := offset hoffset
  obtain ⟨_, _, hopened, h⟩ := bind h
  obtain rfl := note hopened
  obtain ⟨_, _, hparser, h⟩ := bind h
  obtain ⟨_, _, hclosed, h⟩ := bind h
  obtain rfl := note hclosed
  obtain ⟨rfl, rfl⟩ := pure h
  exact hparser

theorem tooDeep {value : α} (h : (Parser.tooDeep : Parser α).CanGive here value there) : False := by
  obtain ⟨_, _, _, h⟩ := bind h
  exact fail h

theorem within {parser : Parser α} {value : α}
    (h : (Parser.within parser).CanGive here value there) : parser.CanGive here value there := by
  obtain ⟨start, stop, rfl, rfl, hrun⟩ := h
  rw [within_run] at hrun
  split at hrun
  · next given reached hparser =>
    cases hrun
    exact ⟨start.atDepth (start.depth + 1), reached, rfl, rfl, hparser⟩
  · cases hrun

theorem inStatement {begin : Nat} {parser : Parser α} {value : α}
    (h : (Parser.inStatement begin parser).CanGive here value there) :
    parser.CanGive here value there := by
  obtain ⟨start, stop, rfl, rfl, hrun⟩ := h
  simp only [Parser.inStatement] at hrun
  split at hrun
  · next hparser =>
    cases hrun
    exact ⟨start, stop, rfl, rfl, hparser⟩
  · cases hrun

end CanGive

/-! ## Putting together what is given -/

namespace Gives

theorem pure (value : α) : (Pure.pure value : Parser α).Gives here value here := by
  intro start hstart
  subst hstart
  exact ⟨start, rfl, rfl, rfl⟩

/-- Two parsers in a row give what the second gives where the first stops. -/
theorem bind {first : Parser α} {rest : α → Parser β} {given : α} {value : β}
    (hfirst : first.Gives here given middle) (hrest : (rest given).Gives middle value there) :
    (first >>= rest).Gives here value there := by
  intro start hstart
  obtain ⟨reached, hreached, hdepth, hrun⟩ := hfirst start hstart
  obtain ⟨stop, hstop, hdepthRest, hrunRest⟩ := hrest reached hreached
  refine ⟨stop, hstop, hdepthRest.trans hdepth, ?_⟩
  show EStateM.bind first rest start = _
  simp only [EStateM.bind, hrun, hrunRest]

theorem offset : Parser.offset.Gives here here.cursor.offset here := by
  intro start hstart
  subst hstart
  exact ⟨start, rfl, rfl, rfl⟩

theorem atEnd : Parser.atEnd.Gives here here.cursor.rest.isEmpty here := by
  intro start hstart
  subst hstart
  exact ⟨start, rfl, rfl, rfl⟩

theorem spanFrom (begin : Nat) :
    (Parser.spanFrom begin).Gives here (.between begin here.lastStop) here := by
  intro start hstart
  subst hstart
  exact ⟨start, rfl, rfl, rfl⟩

theorem note (event : Event) : (Parser.note event).Gives here () here := by
  intro start hstart
  subst hstart
  exact ⟨start.noted event, rfl, rfl, rfl⟩

theorem take : (Parser.take token).Gives here () (here.past token) := by
  intro start hstart
  subst hstart
  exact ⟨start.took token, rfl, rfl, rfl⟩

/-- What follows the taking of a token is given from behind that token. -/
theorem bind_take {rest : Unit → Parser α} {value : α}
    (h : (rest ()).Gives (here.past token) value there) :
    (Parser.take token >>= rest).Gives here value there :=
  bind take h

/-- What is made of a span is made of the span up to the last token. -/
theorem bind_spanFrom {begin : Nat} {span : Span} (hspan : .between begin here.lastStop = span)
    (make : Span → α) :
    (Parser.spanFrom begin >>= fun span => Pure.pure (make span)).Gives here (make span) here :=
  hspan ▸ bind (spanFrom begin) (pure _)

theorem peek?_some (h : here.Next token) : Parser.peek?.Gives here (some token) here := by
  intro start hstart
  subst hstart
  refine ⟨start, rfl, rfl, ?_⟩
  rw [peek?_run, show start.cursor.peek = .ok (some token) from h]

theorem peek?_none (h : here.Ended) : Parser.peek?.Gives here none here := by
  intro start hstart
  subst hstart
  refine ⟨start, rfl, rfl, ?_⟩
  rw [peek?_run, show start.cursor.peek = .ok none from h]

theorem peek (h : here.Next token) : Parser.peek.Gives here token here :=
  bind (peek?_some h) (pure token)

theorem next (h : here.Next token) : Parser.next.Gives here token (here.past token) :=
  bind (peek h) (bind_take (pure token))

theorem expect {kind : Kind} (h : here.Next token) (hkind : token.kind = kind)
    (expectation : Expectation) :
    (Parser.expect kind expectation).Gives here token (here.past token) := by
  refine bind (peek h) ?_
  rw [if_pos hkind]
  exact bind_take (pure token)

theorem next?_some {kind : Kind} (h : here.Next token) (hkind : token.kind = kind) :
    (Parser.next? kind).Gives here (some token) (here.past token) := by
  refine bind (peek?_some h) ?_
  simp only [hkind, if_true]
  exact bind_take (pure _)

theorem next?_other {kind : Kind} (h : here.Next token) (hkind : token.kind ≠ kind) :
    (Parser.next? kind).Gives here none here := by
  refine bind (peek?_some h) ?_
  simp only [hkind, if_false]
  exact pure none

theorem next?_ended {kind : Kind} (h : here.Ended) : (Parser.next? kind).Gives here none here :=
  bind (peek?_none h) (pure none)

theorem within {parser : Parser α} {value : α} (h : parser.Gives here value there) :
    (Parser.within parser).Gives here value there := by
  intro start hstart
  subst hstart
  obtain ⟨stop, rfl, hdepth, hrun⟩ := h (start.atDepth (start.depth + 1)) rfl
  refine ⟨stop.atDepth (stop.depth - 1), rfl, ?_, ?_⟩
  · show stop.depth - 1 = start.depth
    rw [hdepth]
    rfl
  · rw [within_run, hrun]

theorem construct {kind : Construct} {parser : Parser α} {value : α}
    (h : parser.Gives here value there) : (Parser.construct kind parser).Gives here value there :=
  bind offset (bind (note _) (bind h (bind (note _) (pure value))))

theorem inStatement {begin : Nat} {parser : Parser α} {value : α}
    (h : parser.Gives here value there) :
    (Parser.inStatement begin parser).Gives here value there := by
  intro start hstart
  subst hstart
  obtain ⟨stop, rfl, hdepth, hrun⟩ := h start rfl
  refine ⟨stop, rfl, hdepth, ?_⟩
  simp only [Parser.inStatement, hrun]

end Gives

/-! ## Putting together failures -/

namespace FailsWith

variable {described : Failure → Prop}

/-- Two parsers in a row fail where the first one fails. -/
theorem bind_first {first : Parser α} (h : first.FailsWith here described) (rest : α → Parser β) :
    (first >>= rest).FailsWith here described := by
  intro start hstart
  obtain ⟨failure, stop, hrun, hfailure⟩ := h start hstart
  refine ⟨failure, stop, ?_, hfailure⟩
  rw [bind_run, hrun]

/-- Two parsers in a row fail where the second fails behind what the first gives. -/
theorem bind {first : Parser α} {rest : α → Parser β} {given : α}
    (hfirst : first.Gives here given middle) (h : (rest given).FailsWith middle described) :
    (first >>= rest).FailsWith here described := by
  intro start hstart
  obtain ⟨reached, hreached, -, hrunFirst⟩ := hfirst start hstart
  obtain ⟨failure, stop, hrun, hfailure⟩ := h reached hreached
  refine ⟨failure, stop, ?_, hfailure⟩
  rw [bind_run, hrunFirst]
  exact hrun

theorem within {parser : Parser α} (h : parser.FailsWith here described) :
    (Parser.within parser).FailsWith here described := by
  intro start hstart
  subst hstart
  obtain ⟨failure, stop, hrun, hfailure⟩ := h (start.atDepth (start.depth + 1)) rfl
  refine ⟨failure, stop.atDepth (stop.depth - 1), ?_, hfailure⟩
  rw [within_run, hrun]

theorem construct {kind : Construct} {parser : Parser α} (h : parser.FailsWith here described) :
    (Parser.construct kind parser).FailsWith here described :=
  bind .offset (bind (.note _) (bind_first h _))

/-- A statement adds nothing to its failures but where it starts. -/
theorem inStatement {begin : Nat} {parser : Parser α} (h : parser.FailsWith here described)
    (hkeeps : ∀ failure, described failure → described (failure.inStatement begin)) :
    (Parser.inStatement begin parser).FailsWith here described := by
  intro start hstart
  obtain ⟨failure, stop, hrun, hfailure⟩ := h start hstart
  refine ⟨failure.inStatement begin, stop, ?_, hkeeps failure hfailure⟩
  simp only [Parser.inStatement, hrun]

end FailsWith

namespace Fails

variable {cause : Cause} {offset : Nat}

theorem fail (cause : Cause) (offset : Nat) :
    (Parser.fail cause offset : Parser α).Fails here cause offset :=
  fun start _ => ⟨⟨cause, offset, none⟩, start, rfl, rfl, rfl⟩

/-- Two parsers in a row fail where the first one fails. -/
theorem bind_first {first : Parser α} (h : first.Fails here cause offset) (rest : α → Parser β) :
    (first >>= rest).Fails here cause offset :=
  FailsWith.bind_first h rest

/-- Two parsers in a row fail where the second fails behind what the first gives. -/
theorem bind {first : Parser α} {rest : α → Parser β} {given : α}
    (hfirst : first.Gives here given middle) (h : (rest given).Fails middle cause offset) :
    (first >>= rest).Fails here cause offset :=
  FailsWith.bind hfirst h

/-- At a fault of the text nothing can be read. -/
theorem peek? {statement : Option Nat}
    (h : here.cursor.peek = .error ⟨cause, offset, statement⟩) :
    Parser.peek?.Fails here cause offset := by
  intro start hstart
  subst hstart
  refine ⟨⟨cause, offset, statement⟩, start, ?_, rfl, rfl⟩
  rw [peek?_run, show start.cursor.peek = .error ⟨cause, offset, statement⟩ from h]

theorem within {parser : Parser α} (h : parser.Fails here cause offset) :
    (Parser.within parser).Fails here cause offset :=
  FailsWith.within h

theorem construct {kind : Construct} {parser : Parser α} (h : parser.Fails here cause offset) :
    (Parser.construct kind parser).Fails here cause offset :=
  FailsWith.construct h

theorem inStatement {begin : Nat} {parser : Parser α} (h : parser.Fails here cause offset) :
    (Parser.inStatement begin parser).Fails here cause offset := by
  refine FailsWith.inStatement h fun failure ⟨hcause, hoffset⟩ => ?_
  unfold Failure.inStatement
  split <;> exact ⟨hcause, hoffset⟩

end Fails

/-! ## Going on elsewhere -/

/-- Every run from one place goes on as a run of another parser from the other place, with as many
levels open. So the two come to the same. -/
def LeadsTo (parser : Parser α) (here : Place) (rest : Parser α) (there : Place) : Prop :=
  ∀ start : ParseState, start.place = here →
    ∃ reached : ParseState, reached.place = there ∧ reached.depth = start.depth ∧
      parser start = rest reached

/-- Two parsers in a row lead to the second where the first stops. -/
theorem Gives.leadsTo {first : Parser α} {given : α} (h : first.Gives here given there)
    (rest : α → Parser β) : (first >>= rest).LeadsTo here (rest given) there := by
  intro start hstart
  obtain ⟨reached, hreached, hdepth, hrun⟩ := h start hstart
  refine ⟨reached, hreached, hdepth, ?_⟩
  rw [bind_run, hrun]

namespace LeadsTo

variable {parser rest last : Parser α}

theorem trans (h : parser.LeadsTo here rest middle) (hrest : rest.LeadsTo middle last there) :
    parser.LeadsTo here last there := by
  intro start hstart
  obtain ⟨reached, hreached, hdepth, hrun⟩ := h start hstart
  obtain ⟨stop, hstop, hdepthRest, hrunRest⟩ := hrest reached hreached
  exact ⟨stop, hstop, hdepthRest.trans hdepth, hrun.trans hrunRest⟩

theorem gives {value : α} (h : parser.LeadsTo here rest middle)
    (hrest : rest.Gives middle value there) : parser.Gives here value there := by
  intro start hstart
  obtain ⟨reached, hreached, hdepth, hrun⟩ := h start hstart
  obtain ⟨stop, hstop, hdepthRest, hrunRest⟩ := hrest reached hreached
  exact ⟨stop, hstop, hdepthRest.trans hdepth, hrun.trans hrunRest⟩

theorem fails {cause : Cause} {offset : Nat} (h : parser.LeadsTo here rest middle)
    (hrest : rest.Fails middle cause offset) : parser.Fails here cause offset := by
  intro start hstart
  obtain ⟨reached, hreached, -, hrun⟩ := h start hstart
  rw [hrun]
  exact hrest reached hreached

end LeadsTo

end Scriptlet.Parser
