import Scriptlet.Proofs.Outcomes

/-!
# Outcomes of loops

A loop gives what its rounds give one after another. `Repeats` and `Separates` say what the two
lists of the grammar give in terms of their items, in any reading of "an item gives". The rounds
counted on the text never run out where every round that goes on takes a token.
-/

namespace Scriptlet.Parser

variable {α β : Type}

/-- The rounds of a loop, one after another. -/
inductive Loops (step : α → Place → Round α β → Place → Prop) : α → Place → β → Place → Prop where
  | done {value here result there} :
      step value here (.done result) there → Loops step value here result there
  | again {value here next middle result there} :
      step value here (.again next) middle → Loops step next middle result there →
      Loops step value here result there

/-- Items one after another, up to where there is none. -/
inductive Repeats (item? : Place → Option α → Place → Prop) : Place → List α → Place → Prop where
  | stop {here there} : item? here none there → Repeats item? here [] there
  | more {here item middle items there} :
      item? here (some item) middle → Repeats item? middle items there →
      Repeats item? here (item :: items) there

/-- One item or more, with commas between them and a closing round bracket behind the last. -/
inductive Separates (item : Place → α → Place → Prop) : Place → List α → Place → Prop where
  | last {here value middle close} :
      item here value middle → middle.Next close → close.kind = .closeRound →
      Separates item here [value] (middle.past close)
  | more {here value middle comma values there} :
      item here value middle → middle.Next comma → comma.kind = .comma →
      Separates item (middle.past comma) values there → Separates item here (value :: values) there

variable {here there middle : Place}

/-- A round of a loop, as it runs. -/
theorem rounds_run (step : α → Parser (Round α β)) (text : List Char) (value : α)
    (state : ParseState) :
    rounds step text value state = match step value state with
      | .ok (.done result) reached => .ok result reached
      | .ok (.again next) reached => (match text with
        | _ :: text => rounds step text next reached
        | [] => failAtEnd reached)
      | .error failure reached => .error failure reached := by
  cases text <;> simp only [rounds, bind, EStateM.bind] <;>
    cases step value state with
    | error failure reached => rfl
    | ok round reached => cases round <;> rfl

/-- A loop that comes to an end does so with more rounds to spend as well. -/
theorem rounds_mono {step : α → Parser (Round α β)} {text more : List Char} {value : α} {result : β}
    {start stop : ParseState} (h : rounds step text value start = .ok result stop)
    (hle : text.length ≤ more.length) : rounds step more value start = .ok result stop := by
  induction text generalizing more value start with
  | nil =>
      rw [rounds_run] at h ⊢
      split at h
      · next hstep => simpa [hstep] using h
      · cases h
      · cases h
  | cons _ text ih =>
      rw [rounds_run] at h ⊢
      split at h
      · next hstep => simpa [hstep] using h
      · next next reached hstep =>
        cases more with
        | nil => simp at hle
        | cons _ more => simpa only [hstep] using ih h (by simpa using hle)
      · cases h

/-- A step that takes a token whenever it goes on. -/
def Advances (step : α → Parser (Round α β)) : Prop :=
  ∀ {value next here there}, (step value).CanGive here (.again next) there →
    there.cursor.rest.length < here.cursor.rest.length

/-- Less text is left when a step that advances goes on. -/
theorem Advances.length_lt {step : α → Parser (Round α β)} (h : Advances step) {value next : α}
    {state reached : ParseState} (hstep : step value state = .ok (.again next) reached) :
    reached.cursor.rest.length < state.cursor.rest.length :=
  h ⟨state, reached, rfl, rfl, hstep⟩

/-- As many rounds as characters left are as good as any more. -/
theorem rounds_eq_repeated {step : α → Parser (Round α β)} (hadvances : Advances step)
    {text : List Char} {value : α} {state : ParseState}
    (hle : state.cursor.rest.length ≤ text.length) :
    rounds step text value state = repeated step value state := by
  induction hlength : text.length using Nat.strongRecOn generalizing text value state with
  | ind length ih =>
      show rounds step text value state = rounds step state.cursor.rest value state
      rw [rounds_run, rounds_run]
      cases hstep : step value state with
      | error failure reached => rfl
      | ok round reached =>
          cases round with
          | done result => rfl
          | again next =>
              have hlt := hadvances.length_lt hstep
              cases htext : text with
              | nil =>
                  rw [htext] at hle
                  simp only [List.length_nil] at hle
                  omega
              | cons _ more =>
                  cases hrest : state.cursor.rest with
                  | nil => simp [hrest] at hlt
                  | cons _ rest =>
                      -- Both loops go on with enough rounds from the state reached.
                      rw [htext, List.length_cons] at hlength
                      rw [hrest, List.length_cons] at hlt hle
                      rw [htext, List.length_cons] at hle
                      show rounds step more next reached = rounds step rest next reached
                      rw [ih more.length (by omega) (by omega) rfl,
                        ih rest.length (by omega) (by omega) rfl]

/-- A loop whose step advances goes round as long as the step does. -/
theorem repeated_run {step : α → Parser (Round α β)} (hadvances : Advances step) (value : α)
    (state : ParseState) :
    repeated step value state = match step value state with
      | .ok (.done result) reached => .ok result reached
      | .ok (.again next) reached => repeated step next reached
      | .error failure reached => .error failure reached := by
  show rounds step state.cursor.rest value state = _
  rw [rounds_run]
  cases hstep : step value state with
  | error failure reached => rfl
  | ok round reached =>
      cases round with
      | done result => rfl
      | again next =>
          have hlt := hadvances.length_lt hstep
          cases hrest : state.cursor.rest with
          | nil => simp [hrest] at hlt
          | cons _ rest =>
              rw [hrest, List.length_cons] at hlt
              exact rounds_eq_repeated hadvances (by omega)

namespace CanGive

/-- A loop gives what its rounds give. -/
theorem rounds {step : α → Parser (Round α β)} {text : List Char} {value : α} {result : β}
    (h : (Parser.rounds step text value).CanGive here result there) :
    Loops (fun value => (step value).CanGive) value here result there := by
  obtain ⟨start, stop, rfl, rfl, hrun⟩ := h
  induction text generalizing value start with
  | nil =>
      rw [rounds_run] at hrun
      split at hrun
      · next hstep =>
        cases hrun
        exact .done ⟨start, _, rfl, rfl, hstep⟩
      · cases hrun
      · cases hrun
  | cons _ text ih =>
      rw [rounds_run] at hrun
      split at hrun
      · next hstep =>
        cases hrun
        exact .done ⟨start, _, rfl, rfl, hstep⟩
      · next hstep => exact .again ⟨start, _, rfl, rfl, hstep⟩ (ih _ hrun)
      · cases hrun

theorem repeated {step : α → Parser (Round α β)} {value : α} {result : β}
    (h : (Parser.repeated step value).CanGive here result there) :
    Loops (fun value => (step value).CanGive) value here result there := by
  obtain ⟨start, stop, rfl, rfl, hrun⟩ := h
  exact rounds ⟨start, stop, rfl, rfl, hrun⟩

theorem many {item? : Parser (Option α)} {items : List α}
    (h : (Parser.many item?).CanGive here items there) :
    Repeats item?.CanGive here items there := by
  -- The loop holds the items so far, the last one first.
  suffices hloop : ∀ (before items : List α), Loops _ before here items there →
      ∃ more, items = before.reverse ++ more ∧ Repeats item?.CanGive here more there by
    obtain ⟨more, rfl, hmore⟩ := hloop [] items (repeated h)
    simpa using hmore
  intro before items hloop
  clear h
  induction hloop with
  | done hstep =>
      obtain ⟨item, _, hitem, hrest⟩ := bind hstep
      cases item with
      | some item => cases (pure hrest).1
      | none =>
          obtain ⟨hresult, rfl⟩ := pure hrest
          cases hresult
          exact ⟨[], by simp, .stop hitem⟩
  | again hstep _ ih =>
      obtain ⟨item, _, hitem, hrest⟩ := bind hstep
      cases item with
      | none => cases (pure hrest).1
      | some item =>
          obtain ⟨hresult, rfl⟩ := pure hrest
          cases hresult
          obtain ⟨more, rfl, hmore⟩ := ih
          exact ⟨item :: more, by simp, .more hitem hmore⟩

theorem separated {item : Parser α} {separator : Expectation} {values : List α}
    (h : (Parser.separated item separator).CanGive here values there) :
    (∃ close, values = [] ∧ here.Next close ∧ close.kind = .closeRound ∧ there = here.past close) ∨
      Separates item.CanGive here values there := by
  obtain ⟨close?, _, hclose, hrest⟩ := bind h
  rcases next? hclose with ⟨close, rfl, hnext, hkind, rfl⟩ | ⟨rfl, rfl, -⟩
  · obtain ⟨rfl, rfl⟩ := pure hrest
    exact .inl ⟨close, rfl, hnext, hkind, rfl⟩
  · right
    -- The loop holds the values so far, the last one first.
    suffices hloop : ∀ (before values : List α), Loops _ before here values there →
        ∃ more, values = before.reverse ++ more ∧ Separates item.CanGive here more there by
      obtain ⟨more, rfl, hmore⟩ := hloop [] values (repeated hrest)
      simpa using hmore
    intro before values hloop
    clear hrest hclose h
    induction hloop with
    | done hstep =>
        obtain ⟨value, _, hitem, hstep⟩ := bind hstep
        obtain ⟨token, _, htoken, hstep⟩ := bind hstep
        obtain ⟨hnext, rfl⟩ := next htoken
        split at hstep
        · cases (pure hstep).1
        · next hkind =>
          obtain ⟨hresult, rfl⟩ := pure hstep
          cases hresult
          exact ⟨[value], by simp, .last hitem hnext hkind⟩
        · exact (unexpected hstep).elim
    | again hstep _ ih =>
        obtain ⟨value, _, hitem, hstep⟩ := bind hstep
        obtain ⟨token, _, htoken, hstep⟩ := bind hstep
        obtain ⟨hnext, rfl⟩ := next htoken
        split at hstep
        · next hkind =>
          obtain ⟨hresult, rfl⟩ := pure hstep
          cases hresult
          obtain ⟨more, rfl, hmore⟩ := ih
          exact ⟨value :: more, by simp, .more hitem hnext hkind hmore⟩
        · cases (pure hstep).1
        · exact (unexpected hstep).elim

end CanGive

/-- Listing items takes tokens when every item does. -/
theorem advances_many {item? : Parser (Option α)}
    (hitem : ∀ {here item there}, item?.CanGive here (some item) there →
      there.cursor.rest.length < here.cursor.rest.length) :
    Advances (fun items : List α => do
      match ← item? with
      | some item => return .again (item :: items)
      | none => return .done items.reverse) := by
  intro items next here there h
  obtain ⟨item, _, hgiven, hrest⟩ := h.bind
  cases item with
  | none => cases hrest.pure.1
  | some item =>
      obtain ⟨-, rfl⟩ := hrest.pure
      exact hitem hgiven

/-- Listing items between commas takes the commas. -/
theorem advances_separated {item : Parser α} {separator : Expectation}
    (hitem : ∀ {here value there}, item.CanGive here value there →
      there.cursor.rest.length ≤ here.cursor.rest.length) :
    Advances (fun items : List α => do
      let items := (← item) :: items
      let token ← next
      match token.kind with
      | .comma => return .again items
      | .closeRound => return .done items.reverse
      | _ => unexpected separator token) := by
  intro items next here there h
  obtain ⟨value, _, hgiven, hrest⟩ := h.bind
  obtain ⟨token, _, htoken, hrest⟩ := hrest.bind
  obtain ⟨hnext, rfl⟩ := htoken.next
  split at hrest
  · obtain ⟨-, rfl⟩ := hrest.pure
    exact Nat.lt_of_lt_of_le hnext.length_lt (hitem hgiven)
  · cases hrest.pure.1
  · exact hrest.unexpected.elim

/-- The outcome of a list with more items before it. -/
def prepended (before : List α) :
    EStateM.Result Failure ParseState (List α) → EStateM.Result Failure ParseState (List α)
  | .ok items stop => .ok (before ++ items) stop
  | .error failure stop => .error failure stop

@[simp] theorem prepended_nil (outcome : EStateM.Result Failure ParseState (List α)) :
    prepended [] outcome = outcome := by
  cases outcome <;> rfl

theorem prepended_prepended (first second : List α)
    (outcome : EStateM.Result Failure ParseState (List α)) :
    prepended first (prepended second outcome) = prepended (first ++ second) outcome := by
  cases outcome <;> simp [prepended]

/-- A list stops at the first item that fails. -/
theorem many_error {item? : Parser (Option α)} {state reached : ParseState} {failure : Failure}
    (h : item? state = .error failure reached) : many item? state = .error failure reached := by
  show rounds _ state.cursor.rest _ state = _
  rw [rounds_run]
  simp only [bind, EStateM.bind, h]

/-- The rounds of a list: each puts an item before those it has. -/
def listing (item? : Parser (Option α)) (items : List α) : Parser (Round (List α) (List α)) := do
  match ← item? with
  | some item => return .again (item :: items)
  | none => return .done items.reverse

/-- A list that has items goes on with the next one. -/
theorem repeated_listing {item? : Parser (Option α)} (hadvances : Advances (listing item?))
    (before : List α) (state : ParseState) :
    repeated (listing item?) before state = match item? state with
      | .ok (some item) reached => repeated (listing item?) (item :: before) reached
      | .ok none reached => .ok before.reverse reached
      | .error failure reached => .error failure reached := by
  rw [repeated_run hadvances]
  unfold listing
  simp only [bind, EStateM.bind]
  cases item? state with
  | error failure reached => rfl
  | ok given reached => cases given <;> rfl

/-- The items that a list has stay before those that it still gives. -/
theorem repeated_listing_eq {item? : Parser (Option α)} (hadvances : Advances (listing item?))
    (before : List α) (state : ParseState) :
    repeated (listing item?) before state =
      prepended before.reverse (repeated (listing item?) [] state) := by
  induction hlength : state.cursor.rest.length using Nat.strongRecOn generalizing before state with
  | ind length ih =>
      rw [repeated_listing hadvances before, repeated_listing hadvances []]
      cases hitem : item? state with
      | error failure reached => rfl
      | ok given reached =>
          cases given with
          | none => simp [prepended]
          | some item =>
              have hround : listing item? before state = .ok (.again (item :: before)) reached := by
                simp [listing, bind, EStateM.bind, pure, EStateM.pure, hitem]
              have hlt := hlength ▸ hadvances.length_lt hround
              show repeated _ (item :: before) reached = prepended _ (repeated _ [item] reached)
              rw [ih _ hlt (item :: before) reached rfl, ih _ hlt [item] reached rfl,
                prepended_prepended, List.reverse_cons]
              rfl

/-- A list goes on behind its first item. -/
theorem many_some {item? : Parser (Option α)}
    (hadvances : ∀ {here item there}, item?.CanGive here (some item) there →
      there.cursor.rest.length < here.cursor.rest.length)
    {item : α} {state reached : ParseState} (h : item? state = .ok (some item) reached) :
    many item? state = prepended [item] (many item? reached) := by
  have hlisting : Advances (listing item?) := advances_many hadvances
  show repeated (listing item?) [] state = prepended [item] (repeated (listing item?) [] reached)
  rw [repeated_listing hlisting, h]
  exact repeated_listing_eq hlisting [item] reached

namespace Gives

/-- A loop is done when its first round is. -/
theorem repeated_done {step : α → Parser (Round α β)} {value : α} {result : β}
    (h : (step value).Gives here (.done result) there) :
    (repeated step value).Gives here result there := by
  intro start hstart
  subst hstart
  obtain ⟨stop, hstop, hdepth, hrun⟩ := h start rfl
  refine ⟨stop, hstop, hdepth, ?_⟩
  show rounds step start.cursor.rest value start = _
  rw [rounds_run, hrun]

/-- A loop whose first round takes a token gives what the loop gives from there. -/
theorem repeated_again {step : α → Parser (Round α β)} {value : α} {result : β} (next : α)
    (h : (step value).Gives here (.again next) middle)
    (hlt : middle.cursor.rest.length < here.cursor.rest.length)
    (hrest : (repeated step next).Gives middle result there) :
    (repeated step value).Gives here result there := by
  intro start hstart
  subst hstart
  obtain ⟨reached, rfl, hdepth, hrun⟩ := h start rfl
  obtain ⟨stop, hstop, hdepthRest, hrunRest⟩ := hrest reached rfl
  refine ⟨stop, hstop, hdepthRest.trans hdepth, ?_⟩
  show rounds step start.cursor.rest value start = _
  change rounds step reached.cursor.rest next reached = _ at hrunRest
  rw [rounds_run, hrun]
  cases htext : start.cursor.rest with
  | nil => simp [ParseState.place, htext] at hlt
  | cons _ text =>
      refine rounds_mono hrunRest ?_
      simp only [ParseState.place, htext, List.length_cons] at hlt
      omega

/-- The items that are given one after another, each with less text left behind it. -/
theorem many {item? : Parser (Option α)} {items : List α}
    (h : Repeats (fun here item there => item?.Gives here item there ∧
      (item.isSome → there.cursor.rest.length < here.cursor.rest.length)) here items there) :
    (Parser.many item?).Gives here items there := by
  suffices hloop : ∀ before : List α,
      (repeated _ before).Gives here (before.reverse ++ items) there from hloop []
  intro before
  induction h generalizing before with
  | stop hitem =>
      refine repeated_done (bind hitem.1 ?_)
      simpa using pure _
  | @more _ item _ items _ hitem _ ih =>
      refine repeated_again (item :: before) (bind hitem.1 (pure _)) (hitem.2 rfl) ?_
      simpa using ih (item :: before)

/-- The items that are given between commas up to a closing bracket, when the list does not begin
with that bracket. -/
theorem separated {item : Parser α} {values : List α} {token : Token} (hnext : here.Next token)
    (hkind : token.kind ≠ .closeRound)
    (h : Separates (fun here value there => item.Gives here value there ∧
      there.cursor.rest.length ≤ here.cursor.rest.length) here values there)
    (separator : Expectation) :
    (Parser.separated item separator).Gives here values there := by
  refine bind (next?_other hnext hkind) ?_
  suffices hloop : ∀ before : List α,
      (repeated _ before).Gives here (before.reverse ++ values) there from hloop []
  intro before
  clear hnext hkind
  induction h generalizing before with
  | @last _ value _ close hitem hclose hkind =>
      refine repeated_done (bind hitem.1 (bind (next hclose) ?_))
      simpa [hkind] using pure _
  | @more _ value _ comma values _ hitem hcomma hkind _ ih =>
      refine repeated_again (value :: before) (bind hitem.1 (bind (next hcomma) ?_))
        (Nat.lt_of_lt_of_le hcomma.length_lt hitem.2) ?_
      · simpa only [hkind] using pure _
      · simpa using ih (value :: before)

/-- An empty list between brackets. -/
theorem separated_nil {item : Parser α} {close : Token} (hnext : here.Next close)
    (hkind : close.kind = .closeRound) (separator : Expectation) :
    (Parser.separated item separator).Gives here [] (here.past close) :=
  bind (next?_some hnext hkind) (pure [])

end Gives

/-- A list fails where its first item does. -/
theorem FailsWith.many_first {item? : Parser (Option α)} {described : Failure → Prop}
    (h : item?.FailsWith here described) : (Parser.many item?).FailsWith here described := by
  intro start hstart
  obtain ⟨failure, stop, hrun, hfailure⟩ := h start hstart
  exact ⟨failure, stop, many_error hrun, hfailure⟩

namespace Fails

variable {cause : Cause} {offset : Nat} {item? : Parser (Option α)}

/-- A list fails where its first item does. -/
theorem many_first (h : item?.Fails here cause offset) :
    (Parser.many item?).Fails here cause offset :=
  FailsWith.many_first h

/-- A list fails where the list behind its first item does. -/
theorem many_rest
    (hadvances : ∀ {here item there}, item?.CanGive here (some item) there →
      there.cursor.rest.length < here.cursor.rest.length)
    {item : α} (hitem : item?.Gives here (some item) middle)
    (h : (Parser.many item?).Fails middle cause offset) :
    (Parser.many item?).Fails here cause offset := by
  intro start hstart
  obtain ⟨reached, hreached, -, hrunItem⟩ := hitem start hstart
  obtain ⟨failure, stop, hrun, hcause, hoffset⟩ := h reached hreached
  refine ⟨failure, stop, ?_, hcause, hoffset⟩
  rw [many_some hadvances hrunItem, hrun]
  rfl

end Fails

end Scriptlet.Parser
