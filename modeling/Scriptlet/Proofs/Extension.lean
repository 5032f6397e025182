import Scriptlet.Proofs.Composition
import Scriptlet.Proofs.Places

/-!
# Runs over a text with more behind it

A run decides by the tokens that it comes to, so it goes over a text as it goes over the same text
with more behind it, until it comes to the end. There the run over the text alone stalls. So a
failure that is not for want of text stays, with one exception: where the last token is an opening
bracket or an arrow, and as many levels are open as may be, the run over the text alone gives up,
where more text could close the bracket or open a block.
-/

namespace Scriptlet

open Scriptlet.Parser

/-- Two states with the same tokens ahead, up to the end of one text and to a place of the other,
and with the same tokens behind them, of which the parse knows something. -/
structure Beside (found : List Token) (finish finish' : Place) (known : Known)
    (left right : ParseState) : Prop where
  depth_eq : left.depth = right.depth
  lastStop_eq : left.lastStop = right.lastStop
  ahead : ∃ before after, found = before ++ after ∧ Reads left.place after finish ∧
    Reads right.place after finish' ∧ known.At before left.place

/-- What two runs come to, of which the second has more text: the same value, a failure for the same
cause, or the end of the first text. -/
inductive Stays (found : List Token) (finish finish' : Place) {α : Type} :
    EStateM.Result Failure ParseState α → EStateM.Result Failure ParseState α → Prop where
  | ok {value left right} :
      Beside found finish finish' .nothing left right →
      Stays found finish finish' (.ok value left) (.ok value right)
  | error {failure other left right} :
      other.cause = failure.cause →
      Stays found finish finish' (.error failure left) (.error other right)
  | stalled {outcome other} :
      Stalled (Invites found) finish outcome → Stays found finish finish' outcome other

variable {found : List Token} {finish finish' : Place} {known : Known} {left right : ParseState}
  {α β : Type}

/-! ## Two states beside one another -/

namespace Beside

theorem forget (h : Beside found finish finish' known left right) :
    Beside found finish finish' .nothing left right := by
  obtain ⟨before, after, hfound, hleft, hright, -⟩ := h.ahead
  exact ⟨h.depth_eq, h.lastStop_eq, before, after, hfound, hleft, hright, trivial⟩

/-- The first text is at its end, with all its tokens taken, or the same token is next in both. -/
theorem ended_or_next (h : Beside found finish finish' known left right) (hended : finish.Ended) :
    (left.place = finish ∧ known.At found finish) ∨
      ∃ token, left.place.Next token ∧ right.place.Next token ∧
        Beside found finish finish' (.next token) left right := by
  obtain ⟨before, after, hfound, hleft, hright, hknown⟩ := h.ahead
  cases after with
  | nil =>
      obtain rfl := Reads.nil_iff.1 hleft
      rw [List.append_nil] at hfound
      exact .inl ⟨rfl, hfound ▸ hknown⟩
  | cons token after =>
      have hnext := (Reads.cons_iff.1 hleft).1
      have hnext' := (Reads.cons_iff.1 hright).1
      exact .inr ⟨token, hnext, hnext', h.depth_eq, h.lastStop_eq, before, token :: after, hfound,
        hleft, hright, hnext⟩

theorem noted (h : Beside found finish finish' known left right) (event other : Event) :
    Beside found finish finish' known (left.noted event) (right.noted other) :=
  ⟨h.depth_eq, h.lastStop_eq, h.ahead⟩

theorem atDepth (h : Beside found finish finish' known left right) (depth : Nat) :
    Beside found finish finish' known (left.atDepth depth) (right.atDepth depth) :=
  ⟨rfl, h.lastStop_eq, h.ahead⟩

/-- Behind the same token the same tokens are ahead. -/
theorem took {token : Token} (h : Beside found finish finish' (.next token) left right)
    (hended : finish.Ended) :
    Beside found finish finish' (.behind token) (left.took token) (right.took token) := by
  obtain ⟨before, after, hfound, hleft, hright, hnext⟩ := h.ahead
  refine ⟨h.depth_eq, rfl, ?_⟩
  cases after with
  | nil =>
      obtain rfl := Reads.nil_iff.1 hleft
      exact absurd hended (Place.Next.not_ended hnext)
  | cons first after =>
      obtain ⟨hfirst, hrest⟩ := Reads.cons_iff.1 hleft
      obtain rfl := Place.Next.unique hnext hfirst
      refine ⟨before ++ [token], after, by simp [hfound], hrest, (Reads.cons_iff.1 hright).2, ?_⟩
      exact List.getLast?_concat

end Beside

/-! ## Operations -/

section

variable {token : Token} {state : ParseState} (h : state.place.Next token)

include h

/-- Where a token is next, the text goes on. -/
theorem Parser.bind_atEnd_run {rest : Bool → Parser α} :
    (atEnd >>= rest) state = rest false state := by
  have hrest : state.cursor.rest.isEmpty = false := by
    rw [Bool.eq_false_iff, ne_eq, List.isEmpty_iff]
    exact fun hnone => h.not_ended (Place.ended_iff.2 hnone)
  show rest state.cursor.rest.isEmpty state = _
  rw [hrest]

theorem Parser.bind_peek?_run {rest : Option Token → Parser α} :
    (peek? >>= rest) state = rest (some token) state := by
  rw [bind_run, peek?_run, show state.cursor.peek = .ok (some token) from h]

theorem Parser.bind_peek_run {rest : Token → Parser α} :
    (peek >>= rest) state = rest token state := by
  unfold Parser.peek
  rw [bind_assoc, bind_peek?_run h]
  rfl

end

/-- From states beside one another a parser comes to the same or to the end of the first text. -/
def Parser.Keeps (parser : Parser α) (found : List Token) (finish finish' : Place)
    (known : Known) : Prop :=
  ∀ left right, Beside found finish finish' known left right →
    Stays found finish finish' (parser left) (parser right)

namespace Stays

/-- Two parsers in a row keep what they come to when both do and the second stalls at the end. -/
theorem bind {first first' : Parser α} {rest rest' : α → Parser β}
    (hfirst : Stays found finish finish' (first left) (first' right)) (hended : finish.Ended)
    (hrest : ∀ value left right, Beside found finish finish' .nothing left right →
      Stays found finish finish' (rest value left) (rest' value right))
    (hstalls : ∀ value, (rest value).Stalls False) :
    Stays found finish finish' ((first >>= rest) left) ((first' >>= rest') right) := by
  rw [bind_run, bind_run]
  generalize first left = outcome at hfirst ⊢
  generalize first' right = other at hfirst ⊢
  cases hfirst with
  | ok hbeside => exact hrest _ _ _ hbeside
  | error hcause => exact .error hcause
  | stalled hstalled =>
      cases outcome with
      | error failure stop => exact .stalled (hstalled.of_error stop)
      | ok value stop =>
          cases hstalled with
          | ok hplace =>
              have hrun := hstalls value stop (hplace ▸ hended)
              exact .stalled (hplace ▸ hrun.imp False.elim)

/-- A parser that stalls stays with what it comes to at the end. -/
theorem of_stalls {parser : Parser α} {deep : Prop} (h : parser.Stalls deep)
    (himp : deep → Invites found) (hplace : left.place = finish) (hended : finish.Ended)
    (other : EStateM.Result Failure ParseState α) :
    Stays found finish finish' (parser left) other :=
  .stalled (hplace ▸ (h left (hplace ▸ hended)).imp himp)

end Stays

namespace Parser.Keeps

/-- What a loop keeps is what its rounds keep; a round that goes on is behind a token. -/
theorem repeated {step : α → Parser (Round α β)} (hended : finish.Ended) (hadvances : Advances step)
    {value : α} (hfirst : (step value).Keeps found finish finish' known)
    (hnext : ∀ {value next here there}, (step value).CanGive here (.again next) there →
      (step next).Keeps found finish finish' .nothing)
    (hstalls : ∀ {value next here there}, (step value).CanGive here (.again next) there →
      (step next).Stalls False) :
    (repeated step value).Keeps found finish finish' known := by
  intro left right hbeside
  induction hlength : left.cursor.rest.length using Nat.strongRecOn
    generalizing known value left right with
  | ind length ih =>
      rw [repeated_run hadvances, repeated_run hadvances]
      have hround := hfirst left right hbeside
      have hgiven {next : α} {reached : ParseState}
          (hrun : step value left = .ok (.again next) reached) :
          (step value).CanGive left.place (.again next) reached.place :=
        ⟨left, reached, rfl, rfl, hrun⟩
      generalize hrun : step value left = outcome at hround hgiven ⊢
      generalize step value right = other at hround ⊢
      cases hround with
      | error hcause => exact .error hcause
      | @ok round reached reached' hbehind =>
          cases round with
          | done result => exact .ok hbehind
          | again next =>
              have hlt := hlength ▸ hadvances.length_lt hrun
              exact ih _ hlt (hnext (hgiven rfl)) _ _ hbehind rfl
      | stalled hstalled =>
          cases outcome with
          | error failure stop => exact .stalled (hstalled.of_error stop)
          | ok round reached =>
              cases hstalled with
              | ok hplace =>
                  cases round with
                  | done result => exact .stalled (.ok hplace)
                  | again next =>
                      have hrest : (repeated step next).Stalls False :=
                        .repeated hadvances (hstalls (hgiven rfl))
                      exact .of_stalls hrest False.elim hplace hended _

/-- The end of the first text has no offset that the other text shares; there a resolute parser
comes to nothing that a span is made for. -/
theorem spanned {parser : Parser α} (h : parser.Keeps found finish finish' .nothing)
    (hended : finish.Ended) (hresolute : parser.Resolute) (make : α → Span → β) :
    (offset >>= fun start => parser >>= fun value => spanFrom start >>= fun span =>
      pure (make value span)).Keeps found finish finish' .nothing := by
  intro left right hbeside
  show Stays found finish finish'
    ((parser >>= fun value => spanFrom left.cursor.offset >>= fun span =>
      pure (make value span)) left)
    ((parser >>= fun value => spanFrom right.cursor.offset >>= fun span =>
      pure (make value span)) right)
  rcases hbeside.ended_or_next hended with ⟨hplace, -⟩ | ⟨token, hnext, hnext', -⟩
  · rcases hresolute with hgivesUp | hstalls
    · have hstays := h left right hbeside
      obtain ⟨failure, stop, hrun, -⟩ := hgivesUp left.place left rfl
      obtain ⟨other, stop', hrun', -⟩ := hgivesUp right.place right rfl
      rw [hrun, hrun'] at hstays
      rw [bind_run, bind_run, hrun, hrun']
      cases hstays with
      | error hcause => exact .error hcause
      | stalled hstalled => exact .stalled (hstalled.of_error stop)
    · exact .of_stalls (.bind hstalls fun _ => .make _ _) False.elim hplace hended _
  · have hoffset : left.cursor.offset = right.cursor.offset :=
      hnext.offset_eq.symm.trans hnext'.offset_eq
    rw [← hoffset]
    refine .bind (h left right hbeside) hended (fun value left right hbehind => ?_)
      fun _ => .make _ _
    show Stays found finish finish' (.ok (make value (.between _ left.lastStop)) left)
      (.ok (make value (.between _ right.lastStop)) right)
    rw [hbehind.lastStop_eq]
    exact .ok hbehind

theorem construct {parser : Parser α} (h : parser.Keeps found finish finish' .nothing)
    (hended : finish.Ended) (kind : Construct) :
    (construct kind parser).Keeps found finish finish' .nothing := by
  intro left right hbeside
  have hinner := h _ _ (hbeside.noted (.opened kind left.cursor.offset)
    (.opened kind right.cursor.offset))
  have hclosed (state : ParseState) : Parser.construct kind parser state =
      (parser >>= fun value => note .closed >>= fun _ => pure value)
        (state.noted (.opened kind state.cursor.offset)) := rfl
  rw [hclosed, hclosed]
  exact .bind hinner hended (fun value _ _ hbehind => .ok (hbehind.noted _ _))
    fun _ => .bind (.note _) fun _ => .pure _

theorem within {parser : Parser α} (h : parser.Keeps found finish finish' .nothing) :
    (within parser).Keeps found finish finish' .nothing := by
  intro left right hbeside
  have hinner := h _ _ (hbeside.atDepth (left.depth + 1))
  rw [within_run, within_run, ← hbeside.depth_eq]
  generalize parser (left.atDepth (left.depth + 1)) = outcome at hinner ⊢
  generalize parser (right.atDepth (left.depth + 1)) = other at hinner ⊢
  cases hinner with
  | @ok value reached reached' hbehind =>
      refine .ok ?_
      show Beside _ _ _ _ _ (reached'.atDepth (reached'.depth - 1))
      rw [← hbehind.depth_eq]
      exact hbehind.atDepth _
  | error hcause => exact .error hcause
  | stalled hstalled =>
      cases outcome with
      | error failure stop => exact .stalled (hstalled.of_error _)
      | ok value stop =>
          cases hstalled with
          | ok hplace => exact .stalled (.ok hplace)

theorem inStatement {parser : Parser α} (h : parser.Keeps found finish finish' .nothing)
    (hbeside : Beside found finish finish' .nothing left right) (start start' : Nat) :
    Stays found finish finish' (inStatement start parser left)
      (inStatement start' parser right) := by
  have hinner := h _ _ hbeside
  unfold Parser.inStatement
  generalize parser left = outcome at hinner ⊢
  generalize parser right = other at hinner ⊢
  cases hinner with
  | ok hbehind => exact .ok hbehind
  | @error failure other _ _ hcause =>
      obtain ⟨cause, offset, statement⟩ := failure
      obtain ⟨_, offset', statement'⟩ := other
      cases statement <;> cases statement' <;> exact .error hcause
  | stalled hstalled =>
      cases outcome with
      | error failure stop => exact .stalled (hstalled.inStatement start)
      | ok value stop => exact .stalled hstalled

end Parser.Keeps

/-! ## The grammar -/

/-- Composed parsers keep what they come to when the inner ones do. -/
theorem Composed.keeps {inner : {α : Type} → Parser α → Prop} (hended : finish.Ended)
    (hinner : ∀ {α : Type} {parser : Parser α}, inner parser →
      parser.Resolute ∧ parser.Keeps found finish finish' .nothing)
    {parser : Parser α} (h : Composed inner known parser) :
    parser.Keeps found finish finish' known := by
  induction h with
  | inner h => exact (hinner h).2
  | spanned make h =>
      obtain ⟨hresolute, hkeeps⟩ := hinner h
      exact hkeeps.spanned hended hresolute make
  | pure value => exact fun _ _ hbeside => .ok hbeside
  | bind _ _ hstalls ihfirst ihrest =>
      exact fun _ _ hbeside =>
        .bind (ihfirst _ _ hbeside) hended (fun value => ihrest value) hstalls
  | atEnd _ hstalls ih =>
      intro left right hbeside
      rcases hbeside.ended_or_next hended with ⟨hplace, -⟩ | ⟨token, hnext, hnext', hbehind⟩
      · exact .of_stalls (.bind_atEnd hstalls) False.elim hplace hended _
      · rw [bind_atEnd_run hnext, bind_atEnd_run hnext']
        exact ih false _ _ hbehind.forget
  | spanFrom start =>
      intro left right hbeside
      show Stays _ _ _ (.ok (Span.between start left.lastStop) left)
        (.ok (Span.between start right.lastStop) right)
      rw [hbeside.lastStop_eq]
      exact .ok hbeside
  | note hevent => exact fun _ _ hbeside => .ok (hbeside.noted _ _)
  | peek? hlooks _ hstalls _ ihnone ihsome =>
      intro left right hbeside
      rcases hbeside.ended_or_next hended with ⟨hplace, hknown⟩ | ⟨token, hnext, hnext', hbehind⟩
      · refine .of_stalls (.bind_peek? hstalls) (fun hdeep => ?_) hplace hended _
        cases hlooks with
        | nothing => exact hdeep.elim
        | behind hkind => exact ⟨_, hknown, hkind⟩
      · rw [bind_peek?_run hnext, bind_peek?_run hnext']
        exact ihsome token _ _ hbehind
  | peek _ ih =>
      intro left right hbeside
      rcases hbeside.ended_or_next hended with ⟨hplace, -⟩ | ⟨token, hnext, hnext', hbehind⟩
      · exact .of_stalls (.bind_peek _) False.elim hplace hended _
      · rw [bind_peek_run hnext, bind_peek_run hnext']
        exact ih token _ _ hbehind
  | take _ ih => exact fun _ _ hbeside => ih _ _ (hbeside.took hended)
  | failNext _ _ hcause | failBehind _ _ hcause => exact fun _ _ _ => .error rfl
  | repeated value hadvances _ _ hstalls ihfirst ihnext =>
      exact Parser.Keeps.repeated hended hadvances ihfirst ihnext hstalls
  | unaware _ ih => exact fun _ _ hbeside => ih _ _ hbeside.forget

/-- A statement and its redundant semicolons keep what they come to when the statement does. -/
theorem keeps_terminated {body : Parser Statement} (hended : finish.Ended)
    (h : (construct .statement body).Keeps found finish finish' .nothing) :
    (Level.terminated body).Keeps found finish finish' .nothing := by
  intro left right hbeside
  have hcomposed : Composed (fun _ => False) .nothing (many (next? .semicolon)) := .semicolons
  have hsemicolons : (many (next? .semicolon)).Keeps found finish finish' .nothing :=
    hcomposed.keeps hended False.elim
  have hrun (state : ParseState) : Level.terminated body state =
      (inStatement state.cursor.offset (construct .statement body) >>= fun statement =>
        many (next? .semicolon) >>= fun _ => pure statement) state := rfl
  rw [hrun, hrun]
  refine .bind (h.inStatement hbeside left.cursor.offset right.cursor.offset) hended ?_ ?_
  · intro statement left right hbehind
    exact .bind (hsemicolons left right hbehind) hended (fun _ _ _ hrest => .ok hrest)
      fun _ => .pure _
  · exact fun statement =>
      .bind (.many length_lt_of_next? (.bind_peek? (.pure none))) fun _ => .pure _

/-- The parsers of a level keep what they come to. -/
structure Level.Keeps (level : Level) (found : List Token) (finish finish' : Place) : Prop where
  expr (mode) : (level.expr mode).Keeps found finish finish' .nothing
  statement : level.statement.Keeps found finish finish' .nothing

theorem Level.Keeps.of_has {level : Level} (h : level.Keeps found finish finish')
    (hresolute : level.Resolute) {parser : Parser α} (hhas : level.Has parser) :
    parser.Resolute ∧ parser.Keeps found finish finish' .nothing := by
  cases hhas with
  | expr mode => exact ⟨hresolute.expr mode, h.expr mode⟩
  | statement => exact ⟨hresolute.statement, h.statement⟩

/-- Every level keeps what it comes to. -/
theorem keeps_ofHeight (hended : finish.Ended) (height : Nat) :
    (Level.ofHeight height).Keeps found finish finish' := by
  induction height with
  | zero =>
      have htooDeep {α : Type} : (tooDeep : Parser α).Keeps found finish finish' .nothing :=
        fun left right hbeside => .error (congrArg Cause.tooDeep hbeside.depth_eq.symm)
      exact ⟨fun _ => htooDeep.construct hended _,
        keeps_terminated hended (htooDeep.construct hended _)⟩
  | succ height ih =>
      have hgrammatical := grammatical_ofHeight height
      have hresolute := resolute_ofHeight height
      have hhas {α : Type} {parser : Parser α} (h : (Level.ofHeight height).Has parser) :=
        ih.of_has hresolute h
      exact ⟨fun mode => .construct (.within
          ((hgrammatical.composed_expression hresolute mode).keeps hended hhas)) hended _,
        keeps_terminated hended (.construct (.within
          ((hgrammatical.composed_statementBody hresolute).keeps hended hhas)) hended _)⟩

/-- A run over a text with more behind it comes to what the run over the text alone comes to, unless
that run is stalled by the end of the text. -/
theorem parseWithin_stays {limit : Nat} {text more : List Char}
    (hreads : Reads (.start text) found finish) (hended : finish.Ended)
    (hreads' : Reads (.start (text ++ more)) found finish') :
    Stays found finish finish' (parseWithin limit text) (parseWithin limit (text ++ more)) := by
  have hkeeps : (Level.ofHeight limit).Keeps found finish finish' := keeps_ofHeight hended limit
  have hstatements := (grammatical_ofHeight limit).composed_statements.keeps hended
    (hkeeps.of_has (resolute_ofHeight limit))
  exact hstatements _ _ ⟨rfl, rfl, [], found, rfl, hreads, hreads', trivial⟩

/-- What is wrong with a text stays wrong with more behind it, unless the text ends too early, or it
ends where a bracket may be closed or a block opened and no construct may start any more. -/
theorem parseWithin_error_append {limit : Nat} {text more : List Char} {failure : Failure}
    {stop : ParseState} (hreads : Reads (.start text) found finish) (hended : finish.Ended)
    (hreads' : Reads (.start (text ++ more)) found finish')
    (h : parseWithin limit text = .error failure stop) :
    (∃ other stop', parseWithin limit (text ++ more) = .error other stop' ∧
      other.cause = failure.cause) ∨
    failure.cause = .endOfInput ∨
    ∃ levels, failure.cause = .tooDeep levels ∧ failure.offset = text.length ∧ Invites found := by
  have hstays :
      Stays found finish finish' (parseWithin limit text) (parseWithin limit (text ++ more)) :=
    parseWithin_stays hreads hended hreads'
  rw [h] at hstays
  generalize parseWithin limit (text ++ more) = outcome at hstays ⊢
  cases hstays with
  | error hcause => exact .inl ⟨_, _, rfl, hcause⟩
  | stalled hstalled =>
      cases hstalled with
      | endOfInput hcause => exact .inr (.inl hcause)
      | tooDeep hinvites hcause hoffset =>
          refine .inr (.inr ⟨_, hcause, ?_, hinvites⟩)
          rw [hoffset]
          exact hended.offset_eq (hreads.in (Cursor.start_in text))

end Scriptlet
