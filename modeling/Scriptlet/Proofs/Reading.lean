import Scriptlet.Parse.State
import Mathlib.Data.List.Basic

/-!
# Reading tokens

A place is what a parse has to know of where it is: the cursor and where the last token stops.
`Reads here tokens there` says that taking the tokens one after another leads from one place to
another. Reading shortens the text that is left, and splits where the list of tokens splits;
`tokens_eq_ok_iff` says that the tokens of a text are what is read up to its end.
-/

namespace Scriptlet

/-- Where a parse is in the text. -/
structure Place where
  cursor : Cursor
  lastStop : Nat

/-- Where reading a text starts. -/
def Place.start (text : List Char) : Place :=
  ⟨Cursor.start text, 0⟩

/-- The place of a parse state. -/
def ParseState.place (state : ParseState) : Place :=
  ⟨state.cursor, state.lastStop⟩

/-- The state behind a token. -/
def ParseState.took (state : ParseState) (token : Token) : ParseState :=
  { state with
    cursor := state.cursor.past token
    lastStop := token.span.stop
    journal := .token token :: state.journal }

/-- The state with an event noted down. -/
def ParseState.noted (state : ParseState) (event : Event) : ParseState :=
  { state with journal := event :: state.journal }

/-- The state with so many levels open. -/
def ParseState.atDepth (state : ParseState) (depth : Nat) : ParseState :=
  { state with depth := depth }

/-- Where the first of some tokens starts. -/
def startOf (tokens : List Token) : Nat :=
  (tokens.head?.map (·.span.offset)).getD 0

/-- Where the last of some tokens stops. -/
def stopOf (tokens : List Token) : Nat :=
  (tokens.getLast?.map (·.span.stop)).getD 0

/-- The span from the first of some tokens to the last. -/
def cover (tokens : List Token) : Span :=
  .between (startOf tokens) (stopOf tokens)

@[simp] theorem startOf_cons (token : Token) (tokens : List Token) :
    startOf (token :: tokens) = token.span.offset := rfl

@[simp] theorem stopOf_singleton (token : Token) : stopOf [token] = token.span.stop := rfl

@[simp] theorem stopOf_cons_cons (first second : Token) (tokens : List Token) :
    stopOf (first :: second :: tokens) = stopOf (second :: tokens) := rfl

/-- Where tokens stop is decided by the last of them. -/
@[simp] theorem stopOf_append_cons (before : List Token) (token : Token) (after : List Token) :
    stopOf (before ++ token :: after) = stopOf (token :: after) := by
  simp [stopOf, List.getLast?_append, List.getLast?_cons]

@[simp] theorem stopOf_cons_append_cons (first : Token) (before : List Token) (token : Token)
    (after : List Token) : stopOf (first :: (before ++ token :: after)) = stopOf (token :: after) :=
  stopOf_append_cons (first :: before) token after

/-- Tokens start where the first part of them starts. -/
theorem startOf_append {before : List Token} (after : List Token) (h : before ≠ []) :
    startOf (before ++ after) = startOf before := by
  cases before with
  | nil => exact absurd rfl h
  | cons first before => rfl

namespace Place

/-- The token at a place. -/
def Next (here : Place) (token : Token) : Prop :=
  here.cursor.peek = .ok (some token)

/-- Nothing is left to read. -/
def Ended (here : Place) : Prop :=
  here.cursor.peek = .ok none

/-- The place behind a token. -/
def past (here : Place) (token : Token) : Place :=
  ⟨here.cursor.past token, token.span.stop⟩

/-- The place has one next token at most. -/
theorem Next.unique {here : Place} {token other : Token} (h : here.Next token)
    (hother : here.Next other) : token = other := by
  simpa [Next] using h.symm.trans hother

/-- Where a token is next the text goes on. -/
theorem Next.not_ended {here : Place} {token : Token} (h : here.Next token) : ¬ here.Ended := by
  intro hended
  simpa using h.symm.trans hended

/-- What is known of the next token, if the text goes on, is known of a token that is next. -/
theorem Next.of_ended_or {here : Place} {token : Token} {P : Token → Prop} (h : here.Next token)
    (hnext : here.Ended ∨ ∃ other, here.Next other ∧ P other) : P token := by
  rcases hnext with hended | ⟨other, hother, hp⟩
  · exact absurd hended h.not_ended
  · exact h.unique hother ▸ hp

/-- Reading ends where no text is left. -/
theorem ended_iff {here : Place} : here.Ended ↔ here.cursor.rest = [] := by
  rw [← Lexeme.scan_eq_none_iff, Ended, Cursor.peek]
  cases hscan : Lexeme.scan here.cursor.rest with
  | error fault => simp
  | ok lexeme => cases lexeme <;> simp

/-- A token starts at its place. -/
theorem Next.offset_eq {here : Place} {token : Token} (h : here.Next token) :
    token.span.offset = here.cursor.offset := by
  simp only [Next, Cursor.peek] at h
  split at h
  · cases h
    rfl
  · cases h
  · cases h

/-- Less text is left behind a token. -/
theorem Next.length_lt {here : Place} {token : Token} (h : here.Next token) :
    (here.past token).cursor.rest.length < here.cursor.rest.length :=
  Cursor.length_rest_past_lt h

end Place

/-- Taking the tokens one after another leads from one place to the other. -/
inductive Reads : Place → List Token → Place → Prop where
  | nil (here) : Reads here [] here
  | cons {here token tokens there} :
      here.Next token → Reads (here.past token) tokens there → Reads here (token :: tokens) there

namespace Reads

variable {here middle there other : Place} {token : Token} {tokens more : List Token}

/-- Reading one token leads behind it. -/
theorem single (h : here.Next token) : Reads here [token] (here.past token) :=
  .cons h (.nil _)

/-- Reading nothing leads nowhere. -/
@[simp] theorem nil_iff : Reads here [] there ↔ there = here := by
  constructor
  · intro h
    cases h
    rfl
  · rintro rfl
    exact .nil _

/-- Reading begins with the first token. -/
theorem cons_iff :
    Reads here (token :: tokens) there ↔
      here.Next token ∧ Reads (here.past token) tokens there := by
  constructor
  · intro h
    cases h with
    | cons hnext hrest => exact ⟨hnext, hrest⟩
  · rintro ⟨hnext, hrest⟩
    exact .cons hnext hrest

/-- Reading one token leads past it. -/
theorem singleton_iff : Reads here [token] there ↔ here.Next token ∧ there = here.past token := by
  rw [cons_iff, nil_iff]

/-- Where the text has ended nothing is read. -/
theorem eq_nil_of_ended (h : Reads here tokens there) (hended : here.Ended) : tokens = [] := by
  cases h with
  | nil => rfl
  | cons hnext _ => exact absurd hended hnext.not_ended

/-- Reading goes on where it has come to. -/
theorem append (h : Reads here tokens middle) (hmore : Reads middle more there) :
    Reads here (tokens ++ more) there := by
  induction h with
  | nil => exact hmore
  | cons hnext _ ih => exact .cons hnext (ih hmore)

/-- Reading the parts of a list of tokens is reading the list. -/
theorem append_iff :
    Reads here (tokens ++ more) there ↔
      ∃ middle, Reads here tokens middle ∧ Reads middle more there := by
  constructor
  · intro h
    induction tokens generalizing here with
    | nil => exact ⟨here, .nil _, h⟩
    | cons token tokens ih =>
        obtain ⟨hnext, hrest⟩ := cons_iff.1 h
        obtain ⟨middle, hfirst, hmore⟩ := ih hrest
        exact ⟨middle, .cons hnext hfirst, hmore⟩
  · rintro ⟨middle, hfirst, hmore⟩
    exact hfirst.append hmore

/-- Reading some tokens and one more comes to the last one with the others read. -/
theorem append_singleton_iff :
    Reads here (tokens ++ [token]) there ↔
      ∃ middle, Reads here tokens middle ∧ middle.Next token ∧ there = middle.past token := by
  rw [append_iff]
  exact exists_congr fun _ => and_congr_right fun _ => singleton_iff

/-- Reading never gives text back. -/
theorem length_le (h : Reads here tokens there) :
    there.cursor.rest.length ≤ here.cursor.rest.length := by
  induction h with
  | nil => exact Nat.le_refl _
  | cons hnext _ ih => exact Nat.le_trans ih (Nat.le_of_lt hnext.length_lt)

/-- Reading tokens leaves less text. -/
theorem length_lt (h : Reads here tokens there) (hne : tokens ≠ []) :
    there.cursor.rest.length < here.cursor.rest.length := by
  cases h with
  | nil => exact absurd rfl hne
  | cons hnext hrest => exact Nat.lt_of_le_of_lt hrest.length_le hnext.length_lt

/-- Tokens start where they are read from. -/
theorem offset_eq (h : Reads here tokens there) (hne : tokens ≠ []) :
    here.cursor.offset = startOf tokens := by
  cases h with
  | nil => exact absurd rfl hne
  | cons hnext _ => exact hnext.offset_eq.symm

/-- The last token read is the one that stops last. -/
theorem lastStop_eq (h : Reads here tokens there) (hne : tokens ≠ []) :
    there.lastStop = stopOf tokens := by
  induction h with
  | nil => exact absurd rfl hne
  | @cons here token tokens there _ hrest ih =>
      cases tokens with
      | nil => exact congrArg Place.lastStop (nil_iff.1 hrest)
      | cons second tokens => exact ih (List.cons_ne_nil _ _)

/-- Of two readings from one place, the one that comes to a place where no token is next holds the
other. -/
theorem prefix_of_stuck (h : Reads here tokens there) (hother : Reads here more other)
    (hstuck : ∀ token, ¬ other.Next token) : tokens <+: more ∧ ∃ rest, Reads there rest other := by
  induction h generalizing more with
  | nil here => exact ⟨by simp, more, hother⟩
  | @cons here token tokens there hnext _ ih =>
      cases hother with
      | nil => exact absurd hnext (hstuck token)
      | cons hsame hrest =>
          obtain rfl := hnext.unique hsame
          obtain ⟨hinitial, hleft⟩ := ih hrest
          exact ⟨List.cons_prefix_cons.2 ⟨rfl, hinitial⟩, hleft⟩

/-- From every place reading comes to a place where no token is next. -/
theorem exists_stuck (here : Place) :
    ∃ tokens there, Reads here tokens there ∧ ∀ token, ¬ there.Next token := by
  induction hlength : here.cursor.rest.length using Nat.strongRecOn generalizing here with
  | ind length ih =>
      by_cases hnext : ∃ token, here.Next token
      · obtain ⟨token, hnext⟩ := hnext
        obtain ⟨tokens, there, hreads, hstuck⟩ :=
          ih _ (hlength ▸ hnext.length_lt) (here.past token) rfl
        exact ⟨token :: tokens, there, .cons hnext hreads, hstuck⟩
      · exact ⟨[], here, .nil here, fun token h => hnext ⟨token, h⟩⟩

/-- The loop that lists the tokens of a text adds what is read. -/
theorem tokensAfter_eq (h : Reads here tokens there) (before : List Token) :
    here.cursor.tokensAfter before = there.cursor.tokensAfter (tokens.reverse ++ before) := by
  induction h generalizing before with
  | nil => rfl
  | @cons here token tokens there hnext _ ih =>
      rw [Cursor.tokensAfter]
      split
      · next found hfound =>
        obtain rfl : token = found := by simpa using hnext.symm.trans hfound
        rw [List.reverse_cons, List.append_assoc]
        exact ih (token :: before)
      · next hnone => exact absurd hnone hnext.not_ended
      · next failure hfailure => simp [Place.Next, hfailure] at hnext

/-- What is read up to the end of a text are its tokens. -/
theorem tokens_eq_ok (h : Reads here tokens there) (hended : there.Ended) :
    here.cursor.tokens = .ok tokens := by
  rw [Cursor.tokens, h.tokensAfter_eq, Cursor.tokensAfter]
  split
  · next found hfound => exact absurd hended (Place.Next.not_ended hfound)
  · simp
  · next failure hfailure => simp [Place.Ended, hfailure] at hended

/-- A text that holds a fault has no tokens. -/
theorem tokens_eq_error {failure : Failure} (h : Reads here tokens there)
    (hfault : there.cursor.peek = .error failure) : here.cursor.tokens = .error failure := by
  rw [Cursor.tokens, h.tokensAfter_eq, Cursor.tokensAfter]
  split
  · next found hfound => simp [hfault] at hfound
  · next hnone => simp [hfault] at hnone
  · next other hother =>
    obtain rfl : failure = other := by simpa using hfault.symm.trans hother
    rfl

/-- The tokens of a text are what is read up to its end. -/
theorem tokens_eq_ok_iff :
    here.cursor.tokens = .ok tokens ↔ ∃ there, Reads here tokens there ∧ there.Ended := by
  constructor
  · intro h
    obtain ⟨found, there, hreads, hstuck⟩ := exists_stuck here
    cases hpeek : there.cursor.peek with
    | error failure => simp [hreads.tokens_eq_error hpeek] at h
    | ok next? =>
        cases next? with
        | some token => exact absurd hpeek (hstuck token)
        | none =>
            obtain rfl : found = tokens := by simpa [hreads.tokens_eq_ok hpeek] using h
            exact ⟨there, hreads, hpeek⟩
  · rintro ⟨there, hreads, hended⟩
    exact hreads.tokens_eq_ok hended

/-- A text has no tokens exactly when reading comes to a fault. -/
theorem tokens_eq_error_iff {failure : Failure} :
    here.cursor.tokens = .error failure ↔
      ∃ tokens there, Reads here tokens there ∧ there.cursor.peek = .error failure := by
  constructor
  · intro h
    obtain ⟨found, there, hreads, hstuck⟩ := exists_stuck here
    cases hpeek : there.cursor.peek with
    | error other =>
        obtain rfl : other = failure := by simpa [hreads.tokens_eq_error hpeek] using h
        exact ⟨found, there, hreads, hpeek⟩
    | ok next? =>
        cases next? with
        | some token => exact absurd hpeek (hstuck token)
        | none => simp [hreads.tokens_eq_ok hpeek] at h
  · rintro ⟨tokens, there, hreads, hfault⟩
    exact hreads.tokens_eq_error hfault

/-- The tokens of a whole text are what is read from its start to its end. -/
theorem start_tokens_eq_ok_iff {text : List Char} :
    (Cursor.start text).tokens = .ok tokens ↔
      ∃ there, Reads (.start text) tokens there ∧ there.Ended :=
  @tokens_eq_ok_iff (.start text) tokens

/-- A whole text has no tokens exactly when reading from its start comes to a fault. -/
theorem start_tokens_eq_error_iff {text : List Char} {failure : Failure} :
    (Cursor.start text).tokens = .error failure ↔
      ∃ tokens there, Reads (.start text) tokens there ∧ there.cursor.peek = .error failure :=
  @tokens_eq_error_iff (.start text) failure

end Reads

end Scriptlet
