import Scriptlet.Proofs.Agreement
import Scriptlet.Proofs.Exactness
import Scriptlet.Proofs.Places
import Scriptlet.Trace

/-!
# The parser takes the tokens of the text

The parser scans the text on its own, one token at a time, as it goes; the loop of `tokensAfter`
scans it from end to end. Both scan the same places: what a parse takes are the first tokens that
the loop lists, all of them when the parse succeeds, and a parse stops at the first fault of the
text at the latest. The invariant is `ParseState.Reading`: the tokens taken so far lead to where the
parse is.
-/

namespace Scriptlet

/-- The tokens that were taken, in order, by a journal with the latest event first. -/
def tokensTaken (journal : List Event) : List Token :=
  (journal.filterMap Event.token?).reverse

/-- Taking a token adds it to those taken. -/
theorem tokensTaken_token (token : Token) (journal : List Event) :
    tokensTaken (.token token :: journal) = tokensTaken journal ++ [token] := by
  simp [tokensTaken, Event.token?]

/-- Other events take no token. -/
theorem tokensTaken_other {event : Event} (h : event.token? = none) (journal : List Event) :
    tokensTaken (event :: journal) = tokensTaken journal := by
  simp [tokensTaken, h]

namespace Cursor

/-- What the loop of `tokensAfter` has listed when it stops, at the end of the text or at a
fault. -/
def listedAfter (before : List Token) (cursor : Cursor) : List Token :=
  match _ : cursor.peek with
  | .ok (some token) => listedAfter (token :: before) (cursor.past token)
  | _ => before.reverse
termination_by cursor.rest.length
decreasing_by exact length_rest_past_lt ‹_›

/-- What is listed from a cursor on. -/
def listed (cursor : Cursor) : List Token :=
  listedAfter [] cursor

/-- What is listed is the result of the loop of `tokensAfter`, unless a fault stops it. -/
theorem tokensAfter_eq_listedAfter (before : List Token) (cursor : Cursor) :
    cursor.tokensAfter before = .ok (cursor.listedAfter before) ∨
      ∃ failure, cursor.tokensAfter before = .error failure := by
  fun_induction Cursor.tokensAfter before cursor with
  | case1 before cursor token hnext ih =>
      rw [listedAfter]
      split
      · next found hfound =>
        obtain rfl : token = found := by simpa using hnext.symm.trans hfound
        exact ih
      · next hnone => exact absurd hnext (hnone token)
  | case2 before cursor hended =>
      rw [listedAfter]
      split
      · next found hfound => simp [hended] at hfound
      · exact .inl rfl
  | case3 before cursor failure hfault => exact .inr ⟨failure, rfl⟩

/-- Only a fault keeps a token from being read. -/
theorem peek_eq_error {cursor : Cursor} {failure : Failure} (h : cursor.peek = .error failure) :
    ∃ fault, failure = ⟨.fault fault, cursor.offset, none⟩ := by
  unfold peek at h
  split at h
  · cases h
  · cases h
  · cases h
    exact ⟨_, rfl⟩

end Cursor

variable {text : List Char} {here there : Place} {found : List Token}

/-- What is read up to where no token is next is listed. -/
theorem Reads.listedAfter_eq (h : Reads here found there) (hstuck : ∀ token, ¬ there.Next token)
    (before : List Token) : here.cursor.listedAfter before = before.reverse ++ found := by
  induction h generalizing before with
  | nil here =>
      rw [Cursor.listedAfter]
      split
      · next token hnext => exact absurd hnext (hstuck token)
      · simp
  | @cons here token _ _ hnext _ ih =>
      rw [Cursor.listedAfter]
      split
      · next found hfound =>
        obtain rfl : token = found := hnext.unique hfound
        have hrest := ih hstuck (token :: before)
        rw [List.reverse_cons, List.append_assoc] at hrest
        exact hrest
      · next hnone => exact absurd hnext (hnone token)

/-- Whatever is read from a place is listed first. -/
theorem Reads.listed_prefix (h : Reads here found there) : found <+: here.cursor.listed := by
  obtain ⟨all, stop, hreads, hstuck⟩ := Reads.exists_stuck here
  unfold Cursor.listed
  rw [hreads.listedAfter_eq hstuck]
  exact (h.prefix_of_stuck hreads hstuck).1

/-- The tokens taken so far lead to where the parse is. -/
def ParseState.Reading (state : ParseState) (text : List Char) : Prop :=
  Reads (.start text) (tokensTaken state.journal) state.place

/-- The next token is one more that leads to where the parse is. -/
theorem ParseState.Reading.took {state : ParseState} {token : Token} (h : state.Reading text)
    (hnext : state.place.Next token) : (state.took token).Reading text := by
  unfold ParseState.Reading ParseState.took
  rw [tokensTaken_token]
  exact h.append (.single hnext)

/-- Other events lead nowhere. -/
theorem ParseState.Reading.noted {state : ParseState} {event : Event} (h : state.Reading text)
    (hevent : event.token? = none) : (state.noted event).Reading text := by
  unfold ParseState.Reading ParseState.noted
  rw [tokensTaken_other hevent]
  exact h

/-- The offset of a place that reading a text comes to. -/
def Reached (text : List Char) (offset : Nat) : Prop :=
  ∃ found here, Reads (.start text) found here ∧ here.cursor.offset = offset

/-- A failure is the fault of the text or lies before it. -/
structure Failure.Agrees (failure : Failure) (text : List Char) : Prop where
  fault : failure.cause.kind = .lexical →
    (Cursor.start text).tokens = .error ⟨failure.cause, failure.offset, none⟩
  ended : failure.cause.kind = .endOfInput →
    ∃ found, (Cursor.start text).tokens = .ok found
  offset_le : ∀ fault : Failure,
    (Cursor.start text).tokens = .error fault → failure.offset ≤ fault.offset

/-- Every place that reading comes to lies before the fault of the text. -/
theorem Reached.offset_le {offset : Nat} {fault : Failure} (h : Reached text offset)
    (hfault : (Cursor.start text).tokens = .error fault) : offset ≤ fault.offset := by
  obtain ⟨found, here, hreads, rfl⟩ := h
  obtain ⟨all, there, hall, hpeek⟩ := Reads.start_tokens_eq_error_iff.1 hfault
  have hstuck : ∀ token, ¬ there.Next token := by
    intro token hnext
    simp [Place.Next, hpeek] at hnext
  obtain ⟨-, rest, hrest⟩ := hreads.prefix_of_stuck hall hstuck
  obtain ⟨_, rfl⟩ := Cursor.peek_eq_error hpeek
  exact hrest.offset_le

/-- One run, beside itself, that takes the tokens of a text. -/
def Simulation.reading (text : List Char) : Simulation where
  state left right := left.place = right.place ∧ left.depth = right.depth ∧ left.Reading text
  start start other := start = other ∧ Reached text start
  stop stop other := stop = other
  span span other := span = other ∧ Reached text span.offset
  failure failure other := failure = other ∧ failure.Agrees text
  gaveUp _ := False

/-- A parse that reads a text has come to its cursor. -/
theorem ParseState.Reading.reached {state : ParseState} (h : state.Reading text) :
    Reached text state.cursor.offset :=
  ⟨tokensTaken state.journal, state.place, h, rfl⟩

/-- At the same place of a text the same token is next; it is one more token of the text, unless the
text ends there or has its fault there. -/
theorem Simulation.reading_peeks {left right : ParseState}
    (h : (reading text).state left right) : (reading text).Peeks left right := by
  obtain ⟨hplace, hdepth, hreads⟩ := h
  have hcursor : left.cursor = right.cursor := congrArg Place.cursor hplace
  cases hpeek : left.cursor.peek with
  | error failure =>
      refine .fault hpeek (hcursor ▸ hpeek) ⟨rfl, ?_⟩
      have htokens : (Cursor.start text).tokens = .error failure := hreads.tokens_eq_error hpeek
      obtain ⟨fault, rfl⟩ := Cursor.peek_eq_error hpeek
      refine ⟨fun _ => htokens, fun hkind => (nomatch hkind), fun found hfault => ?_⟩
      rw [htokens] at hfault
      cases hfault
      exact Nat.le_refl _
  | ok next? =>
      cases next? with
      | none =>
          have hended : left.place.Ended := hpeek
          refine .ended hended (hplace ▸ hended) ⟨by rw [hcursor], ?_⟩
          refine ⟨fun hkind => (nomatch hkind), fun _ => ⟨_, hreads.tokens_eq_ok hended⟩, ?_⟩
          exact fun fault hfault => hreads.reached.offset_le hfault
      | some token =>
          have hnext : left.place.Next token := hpeek
          refine .next ⟨hnext, hplace ▸ hnext, ⟨rfl, rfl, rfl, ?_⟩, ?_, hdepth, hreads.took hnext⟩
          · rw [hnext.offset_eq]
            exact hreads.reached
          · show left.place.past token = right.place.past token
            rw [hplace]

theorem Simulation.reading_lawful (text : List Char) : (reading text).Lawful := by
  constructor
  case depth_eq => exact fun hstate => hstate.2.1
  case atDepth => exact fun depth hstate => ⟨hstate.1, rfl, hstate.2.2⟩
  case noted =>
    rintro left right event other hevent - ⟨hplace, hdepth, hreads⟩
    exact ⟨hplace, hdepth, hreads.noted hevent⟩
  case peeks => exact Simulation.reading_peeks
  case offset =>
    rintro left right ⟨hplace, -, hreads⟩
    exact ⟨congrArg (·.cursor.offset) hplace, hreads.reached⟩
  case lastStop => exact fun hstate => congrArg Place.lastStop hstate.1
  case span_offset => exact fun hspan => ⟨congrArg Span.offset hspan.1, hspan.2⟩
  case span_stop => exact fun hspan => congrArg Span.stop hspan.1
  case between =>
    rintro start start' stop stop' ⟨rfl, hstart⟩ rfl
    exact ⟨rfl, hstart⟩
  case refused =>
    rintro cause cause' offset offset' hcause ⟨rfl, hoffset⟩
    obtain rfl := hcause.eq fun _ _ hspan => hspan.1
    refine ⟨rfl, ?_, ?_, fun fault => hoffset.offset_le⟩ <;>
      intro hkind
    · cases hcause <;> cases hkind
    · cases hcause <;> cases hkind
  case inStatement =>
    rintro ⟨cause, offset, statement⟩ failure' start start' ⟨rfl, hagrees⟩ ⟨rfl, -⟩
    refine ⟨rfl, ?_⟩
    cases statement with
    | none | some => exact ⟨hagrees.fault, hagrees.ended, hagrees.offset_le⟩
  case gaveUp_inStatement => exact fun _ hfalse => hfalse.elim

/-- What a run over a text takes leads to where it stops, and a run that fails agrees with the
tokens of the text. -/
theorem run_reads (limit : Nat) (text : List Char) :
    match parseWithin limit text with
    | .ok _ stop => stop.Reading text ∧ stop.place.Ended
    | .error failure stop => stop.Reading text ∧ failure.Agrees text := by
  have hstate : (Simulation.reading text).state (.start text) (.start text) :=
    ⟨rfl, rfl, .nil _⟩
  have hagrees :
      (Simulation.reading text).Agrees _ (parseWithin limit text) (parseWithin limit text) :=
    Simulation.agrees_statements_ofHeight (Simulation.reading_lawful text) limit hstate
  have hsound {statements : List Statement} {stop : ParseState}
      (hrun : parseWithin limit text = .ok statements stop) : stop.place.Ended := by
    obtain ⟨_, -, hended, -⟩ :=
      (sound_ofHeight limit).statements ⟨.start text, stop, rfl, rfl, hrun⟩
    exact hended
  cases hrun : parseWithin limit text with
  | ok statements stop =>
      rw [hrun] at hagrees
      cases hagrees with
      | ok _ hstate => exact ⟨hstate.2.2, hsound hrun⟩
  | error failure stop =>
      rw [hrun] at hagrees
      cases hagrees with
      | error hfailure hstate => exact ⟨hstate.2.2, hfailure.2⟩
      | gaveUp hfalse => exact hfalse.elim

/-- The lines of a trace that shows tokens are those of the tokens taken. -/
theorem lines_eq_tokensTaken (journal : List Event) :
    (TraceSettings.mk true false).lines journal =
      (tokensTaken journal).filterMap fun token => (Event.token token).line? ⟨true, false⟩ := by
  unfold TraceSettings.lines tokensTaken
  rw [← List.filterMap_reverse, List.filterMap_filterMap]
  congr 1
  funext event
  cases event <;> rfl

/-- The journal of a parse is that of the run over the text. -/
theorem Program.journal_eq (text : List Char) :
    (Program.parseText text).2 = match parseWithin nestingLimit text with
      | .ok _ stop => stop.journal
      | .error _ stop => stop.journal := by
  simp only [Program.parseText]
  cases parseWithin nestingLimit text <;> rfl

/-- The tokens that the parse of a source text takes. -/
def Program.taken (source : String) : List Token :=
  tokensTaken (Program.parseText source.toList).2

/-- The tokens that a parse takes are listed first by the loop over the text; a parse that succeeds
takes all the tokens of the text; a parse that fails at a fault fails as the loop does; and where
the loop fails, a parse fails no later, for another reason than the end of the text. -/
theorem Program.parse_takes_tokens (source : String) :
    (Program.taken source <+: (Cursor.start source.toList).listed ∧
      (TraceSettings.mk true false).lines (Program.parseText source.toList).2 =
        (Program.taken source).filterMap fun token => (Event.token token).line? ⟨true, false⟩) ∧
    (∀ program, Program.parse source = .ok program →
      tokens source = .ok (Program.taken source)) ∧
    (∀ error, Program.parse source = .error error → error.kind = .lexical →
      ∃ fault, tokens source = .error fault ∧ fault.kind = error.kind ∧
        fault.message = error.message ∧ fault.offset = error.offset ∧
        fault.excerpt = error.excerpt) ∧
    (∀ fault, tokens source = .error fault →
      ∃ error, Program.parse source = .error error ∧ error.kind ≠ .endOfInput ∧
        error.offset ≤ fault.offset) := by
  have hreading := run_reads nestingLimit source.toList
  have hparse := Program.parse_run source
  have htaken : Program.taken source = tokensTaken (Program.parseText source.toList).2 := rfl
  rw [Program.journal_eq] at htaken
  -- A run that succeeds has read the text to its end; one that fails has only read a part of it.
  cases hrun : parseWithin nestingLimit source.toList with
  | ok statements stop =>
      rw [hrun] at hreading hparse htaken
      obtain ⟨hreads, hended⟩ := hreading
      have htokens : tokens source = .ok (Program.taken source) :=
        htaken ▸ tokens_eq_ok_iff.2 (hreads.tokens_eq_ok hended)
      refine ⟨⟨htaken ▸ hreads.listed_prefix, lines_eq_tokensTaken _⟩, fun _ _ => htokens, ?_, ?_⟩
      · intro error herror
        rw [hparse] at herror
        cases herror
      · intro fault hfault
        rw [htokens] at hfault
        cases hfault
  | error failure stop =>
      rw [hrun] at hreading hparse htaken
      obtain ⟨hreads, hagrees⟩ := hreading
      refine ⟨⟨htaken ▸ hreads.listed_prefix, lines_eq_tokensTaken _⟩, ?_, ?_, ?_⟩
      · intro program hprogram
        rw [hparse] at hprogram
        cases hprogram
      · intro error herror hkind
        rw [hparse] at herror
        cases herror
        exact ⟨_, tokens_eq_error_iff.2 ⟨_, hagrees.fault hkind, rfl⟩, rfl, rfl, rfl, rfl⟩
      · intro fault hfault
        obtain ⟨found, hfound, rfl⟩ := tokens_eq_error_iff.1 hfault
        refine ⟨_, hparse, fun hkind => ?_, hagrees.offset_le found hfound⟩
        obtain ⟨_, hok⟩ := hagrees.ended hkind
        rw [hok] at hfound
        cases hfound

end Scriptlet
