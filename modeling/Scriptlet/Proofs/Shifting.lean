import Scriptlet.Proofs.Agreement

/-!
# The same text further on

A token hangs on the text from the cursor on, and offsets are only copied, compared with offsets of
the same text and subtracted from one another. So a run over a text that stands further on goes as
the run over the text alone, with every span and every failure as much further on. The two runs
differ in one thing: before the first token, `lastStop` tells of other text.
-/

namespace Scriptlet

/-- The span so much further on. -/
def Span.shift (distance : Nat) (span : Span) : Span :=
  ⟨span.offset + distance, span.length⟩

/-- The token so much further on. -/
def Token.shift (distance : Nat) (token : Token) : Token :=
  { token with span := token.span.shift distance }

/-- The cursor so much further on, before the same text. -/
def Cursor.shift (distance : Nat) (cursor : Cursor) : Cursor :=
  ⟨cursor.offset + distance, cursor.rest⟩

/-- The failure so much further on. -/
def Failure.shift (distance : Nat) (failure : Failure) : Failure :=
  { failure with offset := failure.offset + distance }

theorem Span.stop_shift (span : Span) (distance : Nat) :
    (span.shift distance).stop = span.stop + distance := by
  show span.offset + distance + span.length = span.offset + span.length + distance
  omega

/-- Further on as many blanks are skipped. -/
theorem Cursor.skipBlanks_shift (cursor : Cursor) (distance : Nat) :
    (cursor.shift distance).skipBlanks = cursor.skipBlanks.shift distance := by
  unfold Cursor.skipBlanks Cursor.shift
  rw [Nat.add_right_comm]

/-- Reading goes on behind the same token further on. -/
theorem Cursor.past_shift (cursor : Cursor) (token : Token) (distance : Nat) :
    (cursor.shift distance).past (token.shift distance) = (cursor.past token).shift distance := by
  unfold Cursor.past
  rw [← Cursor.skipBlanks_shift]
  show Cursor.skipBlanks ⟨(token.span.shift distance).stop, _⟩ = _
  rw [Span.stop_shift]
  rfl

/-- Further on the same token is next, or the same fault. -/
theorem Cursor.peek_shift (cursor : Cursor) (distance : Nat) :
    (cursor.shift distance).peek =
      (cursor.peek.map (Option.map (Token.shift distance))).mapError (Failure.shift distance) := by
  unfold Cursor.peek Cursor.shift
  cases Lexeme.scan cursor.rest with
  | error fault => rfl
  | ok lexeme? => cases lexeme? <;> rfl

/-- The place so much further on, before the same text. -/
def Place.shift (distance : Nat) (here : Place) : Place :=
  ⟨here.cursor.shift distance, here.lastStop + distance⟩

/-- Further on the same tokens are read, as much further on. -/
theorem Reads.shift {here there : Place} {tokens : List Token} (h : Reads here tokens there)
    (distance : Nat) :
    Reads (here.shift distance) (tokens.map (Token.shift distance)) (there.shift distance) := by
  induction h with
  | nil => exact .nil _
  | @cons here token tokens there hnext _ ih =>
      refine .cons ?_ ?_
      · have hpeek := here.cursor.peek_shift distance
        rw [show here.cursor.peek = .ok (some token) from hnext] at hpeek
        exact hpeek
      · have hpast : (here.shift distance).past (token.shift distance) =
            (here.past token).shift distance :=
          congrArg₂ Place.mk (here.cursor.past_shift token distance)
            (token.span.stop_shift distance)
        rw [hpast]
        exact ih

/-- Which tokens are read hangs on the text and not on the token before it. -/
theorem Reads.of_cursor_eq {here other there : Place} {tokens : List Token}
    (h : Reads here tokens there) (hne : tokens ≠ []) (hcursor : other.cursor = here.cursor) :
    Reads other tokens there := by
  cases h with
  | nil => exact absurd rfl hne
  | @cons _ token _ _ hnext hrest =>
      refine .cons (show other.cursor.peek = _ by rw [hcursor]; exact hnext) ?_
      rwa [show other.past token = here.past token by rw [Place.past, hcursor]; rfl]

/-- Two runs over the same text, of which the second stands further on. -/
def Simulation.shift (distance : Nat) : Simulation where
  state left right :=
    right.cursor = left.cursor.shift distance ∧ left.depth = right.depth ∧
      (right.lastStop = left.lastStop + distance ∨ left.lastStop = 0 ∧ right.lastStop ≤ distance)
  start start other := other = start + distance
  -- Before its first token the first run has taken nothing, and the second may have.
  stop stop other := other = stop + distance ∨ stop = 0 ∧ other ≤ distance
  span span other := other = span.shift distance
  failure failure other :=
    failure.cause.kind = other.cause.kind ∧ failure.cause.message = other.cause.message ∧
      other.offset = failure.offset + distance
  gaveUp _ := False

namespace Simulation

/-- Further on the same is next. -/
theorem shift_peeks {distance : Nat} {left right : ParseState}
    (h : (shift distance).state left right) : (shift distance).Peeks left right := by
  obtain ⟨hcursor, hdepth, -⟩ := h
  have hpeek := hcursor ▸ left.cursor.peek_shift distance
  cases hleft : left.cursor.peek with
  | error failure =>
      rw [hleft] at hpeek
      exact .fault hleft hpeek ⟨rfl, rfl, rfl⟩
  | ok token? =>
      rw [hleft] at hpeek
      cases token? with
      | none => exact .ended hleft hpeek ⟨rfl, rfl, by rw [hcursor]; rfl⟩
      | some token =>
          have hstop := token.span.stop_shift distance
          refine .next ⟨hleft, hpeek, ⟨rfl, rfl, rfl⟩, ?_, hdepth, .inl hstop⟩
          show right.cursor.past (token.shift distance) = _
          rw [hcursor]
          exact left.cursor.past_shift token distance

theorem shift_lawful (distance : Nat) : (shift distance).Lawful := by
  constructor
  case depth_eq => exact fun hstate => hstate.2.1
  case atDepth => exact fun _ hstate => ⟨hstate.1, rfl, hstate.2.2⟩
  case noted => exact fun _ _ hstate => hstate
  case peeks => exact shift_peeks
  case offset =>
    rintro left right ⟨hcursor, -⟩
    exact congrArg Cursor.offset hcursor
  case lastStop => exact fun hstate => hstate.2.2
  case span_offset =>
    rintro span _ rfl
    rfl
  case span_stop =>
    rintro span _ rfl
    exact .inl (span.stop_shift distance)
  case between =>
    rintro start _ stop stop' rfl hstop
    have hlength : stop' - (start + distance) = stop - start := by
      rcases hstop with rfl | ⟨rfl, hle⟩ <;> omega
    show (⟨start + distance, stop' - (start + distance)⟩ : Span) = _
    rw [hlength]
    rfl
  case refused => exact fun hcause hoffset => ⟨hcause.kind_eq, hcause.message_eq, hoffset⟩
  case inStatement =>
    rintro ⟨cause, offset, statement⟩ ⟨cause', offset', statement'⟩ _ _ hfailure -
    cases statement <;> cases statement' <;> exact hfailure
  case gaveUp_inStatement => exact fun _ hfalse => hfalse.elim

end Simulation

end Scriptlet
