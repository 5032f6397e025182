import Scriptlet.Parse.Nesting
import Scriptlet.Proofs.Repetition

/-!
# How parsers fail

`parser.FailsOnly here described` says that a run from a place that fails is described, whatever the
depth and the journal of its state. It is put together along the operations of a parser: two parsers
in a row fail only as the first does, or as the second does behind what the first gives; and where a
parser looks for a token, it fails only at a fault of the text, at the end of the text, or at the
token. A loop fails only as its rounds do, from the places that rounds lead to.
-/

namespace Scriptlet

/-- What looking for a token at a place can fail with is described. -/
structure Place.Describes (here : Place) (described : Failure → Prop) : Prop where
  fault {failure} : here.cursor.peek = .error failure → described failure
  ended : here.Ended → described ⟨.endOfInput, here.cursor.offset, none⟩
  unexpected {token} (expectation) :
    here.Next token → described ⟨.unexpected expectation token, token.span.offset, none⟩

namespace Parser

variable {α β : Type} {here : Place} {token : Token} {described : Failure → Prop}

/-- A run from a place that fails is described. -/
def FailsOnly (parser : Parser α) (here : Place) (described : Failure → Prop) : Prop :=
  ∀ start failure stop, start.place = here → parser start = .error failure stop → described failure

namespace FailsOnly

theorem imp {other : Failure → Prop} {parser : Parser α} (h : parser.FailsOnly here described)
    (himp : ∀ failure, described failure → other failure) : parser.FailsOnly here other :=
  fun start failure stop hstart hrun => himp failure (h start failure stop hstart hrun)

/-! ## Operations -/

theorem pure (value : α) : (Pure.pure value : Parser α).FailsOnly here described :=
  fun _ _ _ _ hrun => nomatch hrun

theorem fail {cause : Cause} {offset : Nat} (h : described ⟨cause, offset, none⟩) :
    (Parser.fail cause offset : Parser α).FailsOnly here described := by
  intro _ _ _ _ hrun
  cases hrun
  exact h

/-- Two parsers in a row fail only as the first does or, behind what it gives, as the second. -/
theorem bind {first : Parser α} {rest : α → Parser β} (hfirst : first.FailsOnly here described)
    (hrest : ∀ {value middle}, first.CanGive here value middle →
      (rest value).FailsOnly middle described) :
    (first >>= rest).FailsOnly here described := by
  rintro start failure stop rfl hrun
  rw [bind_run] at hrun
  cases hstart : first start with
  | error other reached =>
      rw [hstart] at hrun
      cases hrun
      exact hfirst start failure stop rfl hstart
  | ok value reached =>
      rw [hstart] at hrun
      exact hrest ⟨start, reached, rfl, rfl, hstart⟩ reached failure stop rfl hrun

theorem bind_offset {rest : Nat → Parser α}
    (h : (rest here.cursor.offset).FailsOnly here described) :
    (Parser.offset >>= rest).FailsOnly here described := by
  rintro start failure stop rfl hrun
  exact h start failure stop rfl hrun

theorem bind_atEnd {rest : Bool → Parser α}
    (h : (rest here.cursor.rest.isEmpty).FailsOnly here described) :
    (Parser.atEnd >>= rest).FailsOnly here described := by
  rintro start failure stop rfl hrun
  exact h start failure stop rfl hrun

theorem bind_spanFrom {begin : Nat} {rest : Span → Parser α}
    (h : (rest (.between begin here.lastStop)).FailsOnly here described) :
    (Parser.spanFrom begin >>= rest).FailsOnly here described := by
  rintro start failure stop rfl hrun
  exact h start failure stop rfl hrun

theorem bind_note {event : Event} {rest : Unit → Parser α}
    (h : (rest ()).FailsOnly here described) :
    (Parser.note event >>= rest).FailsOnly here described := by
  rintro start failure stop rfl hrun
  exact h (start.noted event) failure stop rfl hrun

theorem bind_take {rest : Unit → Parser α}
    (h : (rest ()).FailsOnly (here.past token) described) :
    (Parser.take token >>= rest).FailsOnly here described := by
  rintro start failure stop rfl hrun
  exact h (start.took token) failure stop rfl hrun

/-- What is made of a span does not fail. -/
theorem make {begin : Nat} {make : Span → α} :
    (Parser.spanFrom begin >>= fun span => Pure.pure (make span)).FailsOnly here described :=
  bind_spanFrom (pure _)

/-! ## Looking for a token -/

theorem unexpected (hdescribes : here.Describes described) (hnext : here.Next token)
    (expectation : Expectation) {other : Place} :
    (Parser.unexpected expectation token : Parser α).FailsOnly other described :=
  fail (hdescribes.unexpected expectation hnext)

theorem peek? (hfault : ∀ {failure}, here.cursor.peek = .error failure → described failure) :
    Parser.peek?.FailsOnly here described := by
  rintro start failure stop rfl hrun
  rw [peek?_run] at hrun
  split at hrun
  · cases hrun
  · next hpeek =>
    cases hrun
    exact hfault hpeek

theorem bind_peek? {rest : Option Token → Parser α} (hdescribes : here.Describes described)
    (hnone : here.Ended → (rest none).FailsOnly here described)
    (hsome : ∀ token, here.Next token → (rest (some token)).FailsOnly here described) :
    (Parser.peek? >>= rest).FailsOnly here described := by
  refine bind (peek? hdescribes.fault) fun {found _} hpeek => ?_
  obtain ⟨hfound, rfl⟩ := hpeek.peek?
  cases found with
  | none => exact hnone hfound
  | some token => exact hsome token hfound

theorem bind_peek {rest : Token → Parser α} (hdescribes : here.Describes described)
    (h : ∀ token, here.Next token → (rest token).FailsOnly here described) :
    (Parser.peek >>= rest).FailsOnly here described := by
  unfold Parser.peek
  rw [bind_assoc]
  refine bind_peek? hdescribes (fun hended => ?_) h
  exact bind (bind_offset (fail (hdescribes.ended hended))) fun hgiven => hgiven.failAtEnd.elim

theorem bind_next {rest : Token → Parser α} (hdescribes : here.Describes described)
    (h : ∀ token, here.Next token → (rest token).FailsOnly (here.past token) described) :
    (Parser.next >>= rest).FailsOnly here described := by
  unfold Parser.next
  rw [bind_assoc]
  refine bind_peek hdescribes fun token hnext => ?_
  rw [bind_assoc]
  exact bind_take (h token hnext)

theorem bind_expect {kind : Kind} {expectation : Expectation} {rest : Token → Parser α}
    (hdescribes : here.Describes described)
    (h : ∀ token, here.Next token → token.kind = kind →
      (rest token).FailsOnly (here.past token) described) :
    (Parser.expect kind expectation >>= rest).FailsOnly here described := by
  unfold Parser.expect
  rw [bind_assoc]
  refine bind_peek hdescribes fun token hnext => ?_
  split
  · next hkind =>
    rw [bind_assoc]
    exact bind_take (h token hnext hkind)
  · exact bind (unexpected hdescribes hnext expectation) fun hgiven => hgiven.unexpected.elim

/-- Where a token may be missing, only a fault of the text fails. -/
theorem next? {kind : Kind}
    (hfault : ∀ {failure}, here.cursor.peek = .error failure → described failure) :
    (Parser.next? kind).FailsOnly here described := by
  refine bind (peek? hfault) fun {found _} hpeek => ?_
  cases found with
  | none => exact pure none
  | some token =>
      dsimp only
      split
      · exact bind_take (pure _)
      · exact pure none

theorem bind_next? {kind : Kind} {rest : Option Token → Parser α}
    (hdescribes : here.Describes described)
    (hnone : (rest none).FailsOnly here described)
    (hsome : ∀ token, here.Next token → token.kind = kind →
      (rest (some token)).FailsOnly (here.past token) described) :
    (Parser.next? kind >>= rest).FailsOnly here described := by
  refine bind (next? hdescribes.fault) fun {found middle} hfound => ?_
  rcases hfound.next? with ⟨token, rfl, hnext, hkind, rfl⟩ | ⟨rfl, rfl, -⟩
  · exact hsome token hnext hkind
  · exact hnone

/-- Reading a part again fails only where the part binds nothing. -/
theorem bind_rebound {result : Except Violation α} {rest : α → Parser β}
    (herror : ∀ violation, result = .error violation →
      described ⟨.notRebindable violation.cause, violation.span.offset, none⟩)
    (hok : ∀ value, result = .ok value → (rest value).FailsOnly here described) :
    (Level.rebound result >>= rest).FailsOnly here described := by
  cases result with
  | ok value => exact hok value rfl
  | error violation =>
      exact bind (fail (herror violation rfl)) fun hgiven => hgiven.fail.elim

/-! ## Constructs -/

variable {parser : Parser α}

theorem within (h : parser.FailsOnly here described) :
    (Parser.within parser).FailsOnly here described := by
  rintro start failure stop rfl hrun
  rw [within_run] at hrun
  split at hrun
  · cases hrun
  · next hparser =>
    cases hrun
    exact h (start.atDepth (start.depth + 1)) failure _ rfl hparser

theorem construct {kind : Construct} (h : parser.FailsOnly here described) :
    (Parser.construct kind parser).FailsOnly here described :=
  bind_offset (bind_note (bind h fun _ => bind_note (pure _)))

theorem tooDeep (h : ∀ levels, described ⟨.tooDeep levels, here.cursor.offset, none⟩) :
    (Parser.tooDeep : Parser α).FailsOnly here described := by
  rintro start failure stop rfl hrun
  cases hrun
  exact h start.depth

/-- What is part of a statement fails as by itself, marked with the start of the statement. -/
theorem inStatement {begin : Nat}
    (h : parser.FailsOnly here fun failure => described (failure.inStatement begin)) :
    (Parser.inStatement begin parser).FailsOnly here described := by
  rintro start failure stop rfl hrun
  unfold Parser.inStatement at hrun
  cases hparser : parser start with
  | ok value reached =>
      rw [hparser] at hrun
      cases hrun
  | error other reached =>
      rw [hparser] at hrun
      cases hrun
      exact h start other stop rfl hparser

/-! ## Loops -/

/-- A loop fails only as its rounds do, from wherever rounds that go on lead to. -/
theorem repeated {step : α → Parser (Round α β)} (reached : α → Place → Prop) {value : α}
    (hadvances : Advances step)
    (hstep : ∀ {value here}, reached value here → (step value).FailsOnly here described)
    (hagain : ∀ {value next here middle}, reached value here →
      (step value).CanGive here (.again next) middle → reached next middle)
    (h : reached value here) : (Parser.repeated step value).FailsOnly here described := by
  rintro start failure stop rfl hrun
  induction hlength : start.cursor.rest.length using Nat.strongRecOn generalizing start value with
  | ind length ih =>
      rw [repeated_run hadvances] at hrun
      cases hround : step value start with
      | error other reached =>
          rw [hround] at hrun
          cases hrun
          exact hstep h start failure stop rfl hround
      | ok round reached =>
          rw [hround] at hrun
          cases round with
          | done result => cases hrun
          | again next =>
              have hless := hlength ▸ hadvances.length_lt hround
              exact ih _ hless reached (hagain h ⟨start, reached, rfl, rfl, hround⟩) hrun rfl

/-- A list fails only as its items do, behind other items. -/
theorem many {item? : Parser (Option α)} (reached : Place → Prop)
    (hadvances : ∀ {here item there}, item?.CanGive here (some item) there →
      there.cursor.rest.length < here.cursor.rest.length)
    (hitem : ∀ {here}, reached here → item?.FailsOnly here described)
    (hmore : ∀ {here item middle}, reached here → item?.CanGive here (some item) middle →
      reached middle)
    (h : reached here) : (Parser.many item?).FailsOnly here described := by
  refine repeated (fun _ => reached) (advances_many hadvances) ?_ ?_ h
  · refine fun {items here} hreached => bind (hitem hreached) fun {found _} _ => ?_
    cases found <;> exact pure _
  · intro items next here middle hreached hround
    obtain ⟨found, _, hgiven, hrest⟩ := hround.bind
    cases found with
    | none => cases hrest.pure.1
    | some item =>
        obtain ⟨-, rfl⟩ := hrest.pure
        exact hmore hreached hgiven

/-- A list between brackets fails only as its items do, or at what stands behind one of them. -/
theorem separated {item : Parser α} {separator : Expectation} (reached : Place → Prop)
    (hle : ∀ {here value there}, item.CanGive here value there →
      there.cursor.rest.length ≤ here.cursor.rest.length)
    (hdescribes : ∀ {here}, reached here → here.Describes described)
    (hitem : ∀ {here}, reached here → item.FailsOnly here described)
    (hgiven : ∀ {here value middle}, reached here → item.CanGive here value middle →
      reached middle)
    (hpast : ∀ {here token}, reached here → here.Next token → reached (here.past token))
    (h : reached here) : (Parser.separated item separator).FailsOnly here described := by
  refine bind_next? (hdescribes h) ?_ fun _ _ _ => pure _
  refine repeated (fun _ => reached) (advances_separated hle) ?_ ?_ h
  · refine fun {items here} hreached => bind (hitem hreached) fun {value middle} hvalue => ?_
    have hmiddle := hdescribes (hgiven hreached hvalue)
    refine bind_next hmiddle fun token hnext => ?_
    split
    · exact pure _
    · exact pure _
    · exact unexpected hmiddle hnext _
  · intro items next here middle hreached hround
    obtain ⟨value, _, hvalue, hrest⟩ := hround.bind
    obtain ⟨token, _, htoken, hrest⟩ := hrest.bind
    obtain ⟨hnext, rfl⟩ := htoken.next
    split at hrest
    · obtain ⟨-, rfl⟩ := hrest.pure
      exact hpast (hgiven hreached hvalue) hnext
    · cases hrest.pure.1
    · exact hrest.unexpected.elim

end FailsOnly

end Parser

end Scriptlet
