import Scriptlet.Proofs.Nesting

/-!
# Runs that run out of text

`parser.RunsOut deep room here` says that some run from `here` fails at the end of the text, and
more text may mend that: the run asks for a token, with fewer than `room` constructs open that were
not open at its start, or, if `deep`, a construct starts there and no level is left. It is taken
apart along the operations of a parser, as what can be given is: the text runs out in the first of
two parsers, or in the second behind what the first gives; and where a token has to be there, it
runs out at the end of the text only.
-/

namespace Scriptlet

/-- What more text may mend: the text ends with room for one more open construct than are open; or,
if deep, no level is left for a construct where the text ends. -/
inductive Failure.Mendable (deep : Prop) (room : Nat) (failure : Failure) (stop : ParseState)
    (opened : Nat) : Prop where
  | endOfInput : failure.cause = .endOfInput → opened < room →
      Mendable deep room failure stop opened
  | tooDeep {levels} :
      deep → failure.cause = .tooDeep levels → stop.place.Ended →
      Mendable deep room failure stop opened

namespace Parser

variable {α β : Type} {deep : Prop} {room : Nat} {here : Place} {token : Token}

/-- Some run from a place fails at the end of the text, and more text may mend it. -/
def RunsOut (deep : Prop) (parser : Parser α) (room : Nat) (here : Place) : Prop :=
  ∃ start failure stop inner, start.place = here ∧ parser start = .error failure stop ∧
    Event.openConstructs stop.journal = inner ++ Event.openConstructs start.journal ∧
    failure.Mendable deep room stop inner.length

namespace RunsOut

/-! ## Operations -/

theorem pure {value : α} : ¬ (Pure.pure value : Parser α).RunsOut deep room here := by
  rintro ⟨_, _, _, _, -, hrun, -⟩
  cases hrun

theorem fail {cause : Cause} {offset : Nat} (hcause : cause ≠ .endOfInput)
    (hdeep : ∀ levels, cause ≠ .tooDeep levels) :
    ¬ (Parser.fail cause offset : Parser α).RunsOut deep room here := by
  rintro ⟨_, _, _, _, -, hrun, -, hmendable⟩
  cases hrun
  cases hmendable with
  | endOfInput hended => exact hcause hended
  | tooDeep _ hlevels => exact hdeep _ hlevels

theorem unexpected {expectation : Expectation} :
    ¬ (Parser.unexpected expectation token : Parser α).RunsOut deep room here :=
  fail (by simp) (by simp)

/-- The text runs out in the first of two parsers or, behind it, in the second. -/
theorem bind {first : Parser α} {rest : α → Parser β} (hfirst : first.Balances room)
    (h : (first >>= rest).RunsOut deep room here) :
    first.RunsOut deep room here ∨
      ∃ value middle, first.CanGive here value middle ∧ (rest value).RunsOut deep room middle := by
  obtain ⟨start, failure, stop, inner, rfl, hrun, hopen, hmendable⟩ := h
  rw [bind_run] at hrun
  have hbalanced := hfirst start
  cases hstart : first start with
  | error other reached =>
      rw [hstart] at hrun
      cases hrun
      exact .inl ⟨start, failure, stop, inner, rfl, hstart, hopen, hmendable⟩
  | ok value reached =>
      rw [hstart] at hrun hbalanced
      cases hbalanced with
      | ok _ hreached =>
          exact .inr ⟨value, reached.place, ⟨start, reached, rfl, rfl, hstart⟩,
            reached, failure, stop, inner, rfl, hrun, hreached ▸ hopen, hmendable⟩

/-- What follows an operation that notes no construct runs out from where it leads. -/
theorem bind_offset {rest : Nat → Parser α} (h : (Parser.offset >>= rest).RunsOut deep room here) :
    (rest here.cursor.offset).RunsOut deep room here := by
  obtain ⟨start, failure, stop, inner, rfl, hrun, h⟩ := h
  exact ⟨start, failure, stop, inner, rfl, hrun, h⟩

theorem bind_spanFrom {begin : Nat} {rest : Span → Parser α}
    (h : (Parser.spanFrom begin >>= rest).RunsOut deep room here) :
    (rest (.between begin here.lastStop)).RunsOut deep room here := by
  obtain ⟨start, failure, stop, inner, rfl, hrun, h⟩ := h
  exact ⟨start, failure, stop, inner, rfl, hrun, h⟩

theorem bind_take {rest : Unit → Parser α}
    (h : (Parser.take token >>= rest).RunsOut deep room here) :
    (rest ()).RunsOut deep room (here.past token) := by
  obtain ⟨start, failure, stop, inner, rfl, hrun, h⟩ := h
  exact ⟨start.took token, failure, stop, inner, rfl, hrun, h⟩

/-- What is made of a span needs no more text. -/
theorem make {begin : Nat} {make : Span → α} :
    ¬ (Parser.spanFrom begin >>= fun span => Pure.pure (make span)).RunsOut deep room here :=
  fun h => pure h.bind_spanFrom

/-- What is noted before something is made of a span needs no more text either. -/
theorem note_make {event : Event} {begin : Nat} {make : Span → α} :
    ¬ (Parser.note event >>= fun _ => Parser.spanFrom begin >>= fun span =>
      Pure.pure (make span)).RunsOut deep room here := by
  rintro ⟨_, _, _, _, -, hrun, -⟩
  cases hrun

theorem bind_atEnd {rest : Bool → Parser α} (h : (Parser.atEnd >>= rest).RunsOut deep room here) :
    (rest here.cursor.rest.isEmpty).RunsOut deep room here := by
  obtain ⟨start, failure, stop, inner, rfl, hrun, h⟩ := h
  exact ⟨start, failure, stop, inner, rfl, hrun, h⟩

theorem bind_peek? {rest : Option Token → Parser α}
    (h : (Parser.peek? >>= rest).RunsOut deep room here) :
    (here.Ended ∧ (rest none).RunsOut deep room here) ∨
      ∃ token, here.Next token ∧ (rest (some token)).RunsOut deep room here := by
  rcases h.bind .peek? with hpeek | ⟨found, _, hpeek, hrest⟩
  · obtain ⟨start, failure, stop, inner, rfl, hrun, -, hmendable⟩ := hpeek
    rw [peek?_run] at hrun
    cases hfault : start.cursor.peek with
    | ok found =>
        rw [hfault] at hrun
        cases hrun
    | error fault =>
        rw [hfault] at hrun
        cases hrun
        obtain ⟨_, rfl⟩ := Cursor.peek_eq_error hfault
        cases hmendable with
        | endOfInput hended => cases hended
        | tooDeep _ hlevels => cases hlevels
  · obtain ⟨hfound, rfl⟩ := hpeek.peek?
    cases found with
    | none => exact .inl ⟨hfound, hrest⟩
    | some token => exact .inr ⟨token, hfound, hrest⟩

/-- A run that fails for want of a token leaves room for a construct. -/
theorem bind_failAtEnd {rest : α → Parser β}
    (h : (Parser.failAtEnd >>= rest).RunsOut deep room here) : 0 < room := by
  obtain ⟨_, _, _, _, -, hrun, -, hmendable⟩ := h
  cases hrun
  cases hmendable with
  | endOfInput _ hlt => exact Nat.lt_of_le_of_lt (Nat.zero_le _) hlt
  | tooDeep _ hlevels => cases hlevels

/-- Where a token has to be there, the text runs out at its end, or behind the token. -/
theorem bind_peek {rest : Token → Parser α} (h : (Parser.peek >>= rest).RunsOut deep room here) :
    (here.Ended ∧ 0 < room) ∨
      ∃ token, here.Next token ∧ (rest token).RunsOut deep room here := by
  unfold Parser.peek at h
  rw [bind_assoc] at h
  rcases h.bind_peek? with ⟨hended, hrest⟩ | ⟨token, hnext, hrest⟩
  · exact .inl ⟨hended, hrest.bind_failAtEnd⟩
  · exact .inr ⟨token, hnext, hrest⟩

theorem bind_next {rest : Token → Parser α} (h : (Parser.next >>= rest).RunsOut deep room here) :
    (here.Ended ∧ 0 < room) ∨
      ∃ token, here.Next token ∧ (rest token).RunsOut deep room (here.past token) := by
  unfold Parser.next at h
  rw [bind_assoc] at h
  refine h.bind_peek.imp id ?_
  rintro ⟨token, hnext, hrest⟩
  rw [bind_assoc] at hrest
  exact ⟨token, hnext, hrest.bind_take⟩

theorem bind_expect {kind : Kind} {expectation : Expectation} {rest : Token → Parser α}
    (h : (Parser.expect kind expectation >>= rest).RunsOut deep room here) :
    (here.Ended ∧ 0 < room) ∨ ∃ token, here.Next token ∧ token.kind = kind ∧
      (rest token).RunsOut deep room (here.past token) := by
  unfold Parser.expect at h
  rw [bind_assoc] at h
  refine h.bind_peek.imp id ?_
  rintro ⟨token, hnext, hrest⟩
  split at hrest
  · next hkind =>
    rw [bind_assoc] at hrest
    exact ⟨token, hnext, hkind, hrest.bind_take⟩
  · exact (unexpected (α := α) hrest).elim

theorem bind_next? {kind : Kind} {rest : Option Token → Parser α}
    (h : (Parser.next? kind >>= rest).RunsOut deep room here) :
    ((here.Ended ∨ ∃ token, here.Next token ∧ token.kind ≠ kind) ∧
        (rest none).RunsOut deep room here) ∨
      ∃ token, here.Next token ∧ token.kind = kind ∧
        (rest (some token)).RunsOut deep room (here.past token) := by
  unfold Parser.next? at h
  rw [bind_assoc] at h
  rcases h.bind_peek? with ⟨hended, hrest⟩ | ⟨token, hnext, hrest⟩
  · exact .inl ⟨.inl hended, hrest⟩
  · dsimp only at hrest
    split at hrest
    · next hkind =>
      rw [bind_assoc] at hrest
      exact .inr ⟨token, hnext, hkind, hrest.bind_take⟩
    · next hkind => exact .inl ⟨.inr ⟨token, hnext, hkind⟩, hrest⟩

/-- Where a token may be missing, no text runs out. -/
theorem next? {kind : Kind} : ¬ (Parser.next? kind).RunsOut deep room here := by
  intro h
  rw [← bind_pure (Parser.next? kind)] at h
  rcases h.bind_next? with ⟨-, hrest⟩ | ⟨_, -, -, hrest⟩ <;> exact pure hrest

/-- Where parts are read again, no text runs out. -/
theorem bind_rebound {result : Except Violation α} {rest : α → Parser β}
    (h : (Level.rebound result >>= rest).RunsOut deep room here) :
    ∃ value, result = .ok value ∧ (rest value).RunsOut deep room here := by
  cases result with
  | ok value => exact ⟨value, rfl, h⟩
  | error violation => exact (fail (α := β) (by simp) (by simp) h).elim

/-! ## Levels -/

/-- A construct that holds what runs out leaves room for one construct less. -/
theorem construct_within {parser : Parser α} {kind : Construct} (hparser : parser.Balances room)
    (h : (construct kind (within parser)).RunsOut deep (room + 1) here) :
    parser.RunsOut deep room here := by
  obtain ⟨start, failure, stop, inner, rfl, hrun, hopen, hmendable⟩ := h
  let opened := start.noted (.opened kind start.cursor.offset)
  let deeper := opened.atDepth (opened.depth + 1)
  have hbalanced := hparser deeper
  change (within parser >>= fun value => Parser.note .closed >>= fun _ => Pure.pure value) opened =
    _ at hrun
  rw [bind_run, within_run] at hrun
  cases hparser : parser deeper with
  | ok value reached =>
      rw [hparser] at hrun
      cases hrun
  | error other reached =>
      rw [hparser] at hrun hbalanced
      cases hrun
      cases hbalanced with
      | error within _ hwithin =>
          refine ⟨deeper, failure, reached, within, rfl, hparser, hwithin, ?_⟩
          cases hmendable with
          | tooDeep hdeep hlevels hended => exact .tooDeep hdeep hlevels hended
          | endOfInput hcause hlt =>
              refine .endOfInput hcause ?_
              have hlength := congrArg List.length (hopen.symm.trans hwithin)
              change _ =
                (within ++ (kind, _) :: Event.openConstructs start.journal).length at hlength
              rw [List.length_append, List.length_append, List.length_cons] at hlength
              omega

/-- A construct that may hold nothing lacks a level where it starts. -/
theorem construct_tooDeep {kind : Construct}
    (h : (construct kind (tooDeep : Parser α)).RunsOut deep room here) : deep ∧ here.Ended := by
  obtain ⟨_, _, _, _, rfl, hrun, -, hmendable⟩ := h
  cases hrun
  cases hmendable with
  | endOfInput hcause => cases hcause
  | tooDeep hdeep _ hended => exact ⟨hdeep, hended⟩

theorem inStatement {parser : Parser α} {begin : Nat}
    (h : (inStatement begin parser).RunsOut deep room here) : parser.RunsOut deep room here := by
  obtain ⟨start, failure, stop, inner, rfl, hrun, hopen, hmendable⟩ := h
  unfold Parser.inStatement at hrun
  cases hparser : parser start with
  | ok value reached =>
      rw [hparser] at hrun
      cases hrun
  | error other reached =>
      rw [hparser] at hrun
      cases hrun
      obtain ⟨cause, offset, statement⟩ := other
      refine ⟨start, _, _, inner, rfl, hparser, hopen, ?_⟩
      cases hmendable with
      | endOfInput hcause hlt => exact .endOfInput (by cases statement <;> exact hcause) hlt
      | tooDeep hdeep hcause hended =>
          exact .tooDeep hdeep (by cases statement <;> exact hcause) hended

/-! ## Loops -/

/-- The text runs out in some round of a loop, behind rounds that go on. -/
theorem repeated {step : α → Parser (Round α β)} {motive : α → Place → Prop} {value : α}
    (hadvances : Advances step) (hstep : ∀ value, (step value).Balances room)
    (hfails : ∀ {value here}, (step value).RunsOut deep room here → motive value here)
    (hagain : ∀ {value next here middle}, (step value).CanGive here (.again next) middle →
      motive next middle → motive value here)
    (h : (repeated step value).RunsOut deep room here) : motive value here := by
  obtain ⟨start, failure, stop, inner, rfl, hrun, hopen, hmendable⟩ := h
  induction hlength : start.cursor.rest.length using Nat.strongRecOn generalizing start value with
  | ind length ih =>
      rw [repeated_run hadvances] at hrun
      have hbalanced := hstep value start
      cases hround : step value start with
      | error other reached =>
          rw [hround] at hrun
          cases hrun
          exact hfails ⟨start, failure, stop, inner, rfl, hround, hopen, hmendable⟩
      | ok round reached =>
          rw [hround] at hrun hbalanced
          cases hbalanced with
          | ok _ hreached =>
              cases round with
              | done result => cases hrun
              | again next =>
                  have hless := hlength ▸ hadvances.length_lt hround
                  exact hagain ⟨start, reached, rfl, rfl, hround⟩
                    (ih _ hless reached hrun (hreached ▸ hopen) rfl)

/-- The text runs out in some item of a list, behind other items. -/
theorem many {item? : Parser (Option α)} {motive : Place → Prop}
    (hadvances : ∀ {here item there}, item?.CanGive here (some item) there →
      there.cursor.rest.length < here.cursor.rest.length)
    (hitem : item?.Balances room)
    (hfails : ∀ {here}, item?.RunsOut deep room here → motive here)
    (hmore : ∀ {here item middle}, item?.CanGive here (some item) middle → motive middle →
      motive here)
    (h : (many item?).RunsOut deep room here) : motive here := by
  refine RunsOut.repeated (motive := fun _ => motive) (advances_many hadvances)
    (fun items => .bind hitem fun item => ?_) ?_ ?_ h
  · cases item <;> exact .pure _
  · intro items here hround
    rcases hround.bind hitem with hfails' | ⟨item, middle, -, hrest⟩
    · exact hfails hfails'
    · cases item <;> exact (pure hrest).elim
  · intro items next here middle hround hmotive
    obtain ⟨item, _, hgiven, hrest⟩ := hround.bind
    cases item with
    | none => cases hrest.pure.1
    | some item =>
        obtain ⟨-, rfl⟩ := hrest.pure
        exact hmore hgiven hmotive

/-- The text runs out in some item between brackets, or behind one. -/
theorem separated {item : Parser α} {separator : Expectation} {motive : Place → Prop}
    (hle : ∀ {here value there}, item.CanGive here value there →
      there.cursor.rest.length ≤ here.cursor.rest.length)
    (hitem : item.Balances room)
    (hfails : ∀ {here}, item.RunsOut deep room here → motive here)
    (hended : ∀ {here value middle}, item.CanGive here value middle → middle.Ended → motive here)
    (hmore : ∀ {here value middle comma}, item.CanGive here value middle → middle.Next comma →
      comma.kind = .comma → motive (middle.past comma) → motive here)
    (h : (separated item separator).RunsOut deep room here) : motive here := by
  rcases h.bind_next? with ⟨-, hrest⟩ | ⟨_, -, -, hrest⟩
  · refine RunsOut.repeated (motive := fun _ => motive) (advances_separated hle)
      ?_ ?_ ?_ hrest
    · refine fun items => .bind hitem fun value => .of_composed (.next fun token => ?_)
      split
      · exact .unaware (.pure _)
      · exact .unaware (.pure _)
      · exact .unexpected (.behind token) _ _
    · intro items here hround
      rcases hround.bind hitem with hitem | ⟨value, middle, hgiven, hrest⟩
      · exact hfails hitem
      · rcases hrest.bind_next with ⟨hend, -⟩ | ⟨token, -, hrest⟩
        · exact hended hgiven hend
        · split at hrest
          · exact (pure hrest).elim
          · exact (pure hrest).elim
          · exact (unexpected hrest).elim
    · intro items next here middle hround hmotive
      obtain ⟨value, _, hgiven, hrest⟩ := hround.bind
      obtain ⟨token, _, htoken, hrest⟩ := hrest.bind
      obtain ⟨hnext, rfl⟩ := htoken.next
      split at hrest
      · next hkind =>
        obtain ⟨-, rfl⟩ := hrest.pure
        exact hmore hgiven hnext hkind hmotive
      · cases hrest.pure.1
      · exact hrest.unexpected.elim
  · exact (pure hrest).elim

end RunsOut

end Parser

end Scriptlet
