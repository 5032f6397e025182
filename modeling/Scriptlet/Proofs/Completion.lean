import Scriptlet.Proofs.Pieces
import Scriptlet.Proofs.Shortage

/-!
# Completing a text that ends too early

Wherever a run runs out of text with room for another construct, some pieces behind the text make
the tokens from there on derivable: a name where an expression or a name is due, the brackets that
are open, a semicolon. Where a construct starts at the end of the text and no level is left for it,
pieces do so that make no construct: the bracket that closes an empty list, an empty block. Only
behind a token that settles that a construct follows none do. So no other place is a dead end, and
there is one lemma for each part of the grammar, which takes its run apart and gives the completion.
-/

namespace Scriptlet

open Scriptlet.Parser

variable {α β : Type} {production : List Token → α → Prop} {production' : List Token → β → Prop}
  {deep : Prop} {room : Nat} {here middle : Place} {token : Token} {tokens : List Token}

/-! ## Completions -/

/-- With some pieces behind them the tokens from a place to the end of the text are derived. -/
def Completes (production : List Token → α → Prop) (here : Place) : Prop :=
  ∃ tokens there pieces, Reads here tokens there ∧ there.Ended ∧
    ∀ more, Spelled pieces more → ∃ value, production (tokens ++ more) value

/-- Tokens that are derived and a token of a kind behind them. -/
def Phrases.Before (production : List Token → α → Prop) (kind : Kind) (tokens : List Token)
    (value : α) : Prop :=
  ∃ inner close, tokens = inner ++ [close] ∧ production inner value ∧ close.kind = kind

/-- Brackets with nothing between them are a block. -/
theorem Phrases.IsBlock.empty {phrases : Phrases} {brace close : Token}
    (hopen : brace.kind = .openCurly) (hclose : close.kind = .closeCurly) :
    phrases.IsBlock [brace, close] [] :=
  .intro hopen .nil hclose

/-- An arrow and an empty block behind parameters are an expression, which holds no other. -/
theorem Phrases.IsParameters.isExpression {phrases : Phrases} {mode : Mode}
    {parameters : Parameters}
    {arrow : Token} {more : List Token} (h : phrases.IsParameters tokens parameters)
    (harrow : arrow.kind = .arrow) (hspelled : Spelled [.openCurly, .closeCurly] more) :
    ∃ expr, phrases.IsExpression mode (tokens ++ arrow :: more) expr := by
  rcases hspelled with _ | ⟨⟨hopen, -⟩, _ | ⟨⟨hclose, -⟩, ⟨⟩⟩⟩
  exact ⟨_, by simpa using
    Phrases.IsExpression.arrowBlock h harrow (.empty hopen hclose) (.done .stop)⟩

namespace Completes

/-- At the end of the text the pieces complete alone. -/
theorem of_ended (hended : here.Ended) (pieces : List Piece)
    (h : ∀ more, Spelled pieces more → ∃ value, production more value) :
    Completes production here :=
  ⟨[], here, pieces, .nil here, hended, h⟩

/-- More pieces complete what the completed tokens are a part of. -/
theorem append (h : Completes production here) (pieces : List Piece)
    (hmore : ∀ {tokens value more}, production tokens value → Spelled pieces more →
      ∃ value', production' (tokens ++ more) value') : Completes production' here := by
  obtain ⟨tokens, there, first, hreads, hended, hderived⟩ := h
  refine ⟨tokens, there, first ++ pieces, hreads, hended, fun more hspelled => ?_⟩
  obtain ⟨before, after, rfl, hbefore, hafter⟩ := Spelled.of_append hspelled
  obtain ⟨value, hvalue⟩ := hderived before hbefore
  rw [← List.append_assoc]
  exact hmore hvalue hafter

theorem imp (h : Completes production here)
    (himp : ∀ {tokens value}, production tokens value → ∃ value', production' tokens value') :
    Completes production' here := by
  obtain ⟨tokens, there, pieces, hreads, hended, hderived⟩ := h
  refine ⟨tokens, there, pieces, hreads, hended, fun more hspelled => ?_⟩
  obtain ⟨value, hvalue⟩ := hderived more hspelled
  exact himp hvalue

/-- What is completed from a place on is completed from before the tokens that lead there. -/
theorem behind (h : Completes production middle) (hreads : Reads here tokens middle)
    (himp : ∀ {more value}, production more value → ∃ value', production' (tokens ++ more) value') :
    Completes production' here := by
  obtain ⟨rest, there, pieces, hrest, hended, hderived⟩ := h
  refine ⟨tokens ++ rest, there, pieces, hreads.append hrest, hended, fun more hspelled => ?_⟩
  obtain ⟨value, hvalue⟩ := hderived more hspelled
  rw [List.append_assoc]
  exact himp hvalue

/-- What is completed where a token is next starts with it. -/
theorem head (h : Completes production here) (hnext : here.Next token) :
    Completes (fun tokens value => production tokens value ∧ tokens.head? = some token) here := by
  obtain ⟨tokens, there, pieces, hreads, hended, hderived⟩ := h
  refine ⟨tokens, there, pieces, hreads, hended, fun more hspelled => ?_⟩
  obtain ⟨value, hvalue⟩ := hderived more hspelled
  refine ⟨value, hvalue, ?_⟩
  cases hreads with
  | nil => exact absurd hended hnext.not_ended
  | cons hfirst _ =>
      rw [hnext.unique hfirst]
      rfl

/-- A piece closes what is completed. -/
theorem closed (h : Completes production here) (piece : Piece) :
    Completes (Phrases.Before production piece.kind) here := by
  refine h.append [piece] ?_
  rintro tokens value _ hvalue (_ | ⟨⟨hkind, -⟩, ⟨⟩⟩)
  exact ⟨value, tokens, _, rfl, hvalue, hkind⟩

end Completes

/-! ## Dead ends -/

/-- Some tokens end with one that settles whether a construct follows. -/
def Settles (tokens : List Token) : Prop :=
  ∃ last ∈ tokens.getLast?, last.kind.invites = false

namespace Settles

theorem concat (tokens : List Token) (h : token.kind.invites = false) :
    Settles (tokens ++ [token]) :=
  ⟨token, by simp, h⟩

theorem single (h : token.kind.invites = false) : Settles [token] :=
  ⟨token, rfl, h⟩

theorem append {more : List Token} (h : Settles more) (tokens : List Token) :
    Settles (tokens ++ more) := by
  obtain ⟨last, hlast, hkind⟩ := h
  exact ⟨last, List.mem_getLast?_append_of_mem_getLast? hlast, hkind⟩

theorem not_invites (h : Settles tokens) : ¬ Invites tokens := by
  obtain ⟨last, hlast, hkind⟩ := h
  rintro ⟨other, hother, hinvites⟩
  rw [Option.mem_unique hother hlast, hkind] at hinvites
  cases hinvites

end Settles

/-- The text ends where no level is left, behind tokens that settle that a construct follows. -/
def Barred (deep : Prop) (here : Place) : Prop :=
  deep ∧ ∃ tokens there, Reads here tokens there ∧ there.Ended ∧ Settles tokens

theorem Barred.behind (h : Barred deep middle) (hreads : Reads here tokens middle) :
    Barred deep here := by
  obtain ⟨hdeep, more, there, hmore, hended, hsettles⟩ := h
  exact ⟨hdeep, _, there, hreads.append hmore, hended, hsettles.append tokens⟩

/-- What the tokens from a place on are derived to with some pieces behind them, unless the place is
barred. -/
def Resumes (deep : Prop) (production : List Token → α → Prop) (here : Place) : Prop :=
  Completes production here ∨ Barred deep here

/-- What becomes of a construct: it has no level left at the end of the text, or it is resumed. -/
def Starts (deep : Prop) (room : Nat) (production : List Token → α → Prop) (here : Place) : Prop :=
  (deep ∧ here.Ended) ∨ (0 < room ∧ Resumes deep production here)

theorem Resumes.map (h : Resumes deep production here)
    (hmap : Completes production here → Completes production' here) :
    Resumes deep production' here :=
  Or.imp_left hmap h

theorem Resumes.imp (h : Resumes deep production here)
    (himp : ∀ {tokens value}, production tokens value → ∃ value', production' tokens value') :
    Resumes deep production' here :=
  h.map fun hcompletes => hcompletes.imp himp

theorem Resumes.behind (h : Resumes deep production middle) (hreads : Reads here tokens middle)
    (himp : ∀ {more value}, production more value → ∃ value', production' (tokens ++ more) value') :
    Resumes deep production' here :=
  Or.imp (fun hcompletes => hcompletes.behind hreads himp) (fun hbarred => hbarred.behind hreads) h

namespace Starts

theorem map (h : Starts deep room production here)
    (hmap : Completes production here → Completes production' here) :
    Starts deep room production' here :=
  Or.imp_right (fun ⟨hpos, hresumes⟩ => ⟨hpos, hresumes.map hmap⟩) h

/-- Behind tokens that settle that a construct follows, one that has no level left is barred. -/
theorem behind (h : Starts deep room production middle) (hreads : Reads here tokens middle)
    (hsettles : Settles tokens)
    (himp : ∀ {more value}, production more value → ∃ value', production' (tokens ++ more) value') :
    Resumes deep production' here := by
  rcases h with ⟨hdeep, hended⟩ | ⟨-, hresumes⟩
  · exact .inr ⟨hdeep, tokens, middle, hreads, hended, hsettles⟩
  · exact hresumes.behind hreads himp

/-- Where a token is next, a construct that starts is resumed. -/
theorem resumes (h : Starts deep room production here) (hnext : here.Next token) :
    Resumes deep production here := by
  rcases h with ⟨-, hended⟩ | ⟨-, hresumes⟩
  · exact absurd hended hnext.not_ended
  · exact hresumes

end Starts

/-! ## Parts that a token follows -/

/-- A part that a token of a kind has to follow is completed, with a piece of the kind behind it. -/
theorem Parser.RunsOut.starts_before {parser : Parser α} {piece : Piece}
    {expectation : Expectation} {rest : α → Token → Parser β}
    (h : (parser >>= fun value => expect piece.kind expectation >>= rest value).RunsOut
      deep room here)
    (hparser : parser.Balances room)
    (hout : parser.RunsOut deep room here → Starts deep room production here)
    (hgiven : ∀ {value middle}, parser.CanGive here value middle →
      ∃ tokens, Reads here tokens middle ∧ production tokens value)
    (hrest : ∀ {value token here}, ¬ (rest value token).RunsOut deep room here) :
    Starts deep room (Phrases.Before production piece.kind) here := by
  rcases h.bind hparser with hfirst | ⟨value, middle, hvalue, hclose⟩
  · exact (hout hfirst).map fun hcompletes => hcompletes.closed piece
  · rcases hclose.bind_expect with ⟨hended, hpos⟩ | ⟨token, -, -, hclosed⟩
    · obtain ⟨tokens, hreads, hderived⟩ := hgiven hvalue
      refine .inr ⟨hpos, .inl ⟨tokens, middle, [piece], hreads, hended, ?_⟩⟩
      rintro _ (_ | ⟨⟨hkind, -⟩, ⟨⟩⟩)
      exact ⟨value, tokens, _, rfl, hderived, hkind⟩
    · exact (hrest hclosed).elim

/-- A name is missing only where the text ends. -/
theorem completes_declaredName {expectation : Expectation}
    (h : (Level.declaredName expectation).RunsOut deep room here) :
    0 < room ∧ Completes Phrases.IsName here := by
  rcases h.bind_next with ⟨hended, hpos⟩ | ⟨token, -, hrest⟩
  · refine ⟨hpos, .of_ended hended [.name] ?_⟩
    rintro _ (_ | ⟨⟨hkind, htext⟩, ⟨⟩⟩)
    exact ⟨_, .intro hkind (by rw [htext]; rfl)⟩
  · split at hrest
    · split at hrest
      · exact (RunsOut.fail (by simp) (by simp) hrest).elim
      · exact (RunsOut.pure hrest).elim
    · exact (RunsOut.unexpected hrest).elim

/-- A list between brackets is completed by a last item and the closing bracket, or by that bracket
alone where no level is left for an item. -/
theorem resumes_separated {item : Parser α} {separator : Expectation}
    (hle : ∀ {here value there}, item.CanGive here value there →
      there.cursor.rest.length ≤ here.cursor.rest.length)
    (hitem : item.Balances room)
    (hout : ∀ {here}, item.RunsOut deep room here → Starts deep room production here)
    (hgiven : ∀ {here value there}, item.CanGive here value there →
      ∃ tokens, Reads here tokens there ∧ production tokens value)
    (h : (separated item separator).RunsOut deep room here) :
    Resumes deep (Phrases.Closed production) here := by
  suffices hlisted : (deep ∧ here.Ended) ∨
      Resumes deep (Phrases.Before (Phrases.Listed production) .closeRound) here by
    rcases hlisted with ⟨-, hended⟩ | hlisted
    · refine .inl (.of_ended hended [.closeRound] ?_)
      rintro _ (_ | ⟨⟨hkind, -⟩, ⟨⟩⟩)
      exact ⟨[], .empty hkind⟩
    · refine hlisted.imp ?_
      rintro _ values ⟨inner, close, rfl, hlisted, hkind⟩
      exact ⟨values, .filled hlisted hkind⟩
  refine h.separated (motive := fun here => (deep ∧ here.Ended) ∨
    Resumes deep (Phrases.Before (Phrases.Listed production) .closeRound) here) hle hitem ?_ ?_ ?_
  · intro here hitem
    refine (hout hitem).imp_right fun ⟨_, hresumes⟩ => hresumes.map fun hcompletes => ?_
    refine (hcompletes.closed .closeRound).imp ?_
    rintro _ value ⟨inner, close, rfl, hvalue, hkind⟩
    exact ⟨[value], inner, close, rfl, .last hvalue, hkind⟩
  · intro here value middle hvalue hended
    obtain ⟨tokens, hreads, hderived⟩ := hgiven hvalue
    refine .inr (.inl ⟨tokens, middle, [.closeRound], hreads, hended, ?_⟩)
    rintro _ (_ | ⟨⟨hkind, -⟩, ⟨⟩⟩)
    exact ⟨[value], tokens, _, rfl, .last hderived, hkind⟩
  · intro here value middle comma hvalue hnext hkind hmore
    obtain ⟨tokens, hreads, hderived⟩ := hgiven hvalue
    have hcomma := hreads.append (.single hnext)
    refine .inr ?_
    rcases hmore with ⟨hdeep, hended⟩ | hmore
    · exact .inr ⟨hdeep, _, _, hcomma, hended, .concat _ (by rw [hkind]; rfl)⟩
    · refine hmore.behind hcomma ?_
      rintro _ values ⟨inner, close, rfl, hlisted, hclose⟩
      exact ⟨value :: values, tokens ++ comma :: inner, close, by simp,
        .more hderived hkind hlisted, hclose⟩

/-! ## Parts of the grammar that ask the level below -/

/-- A level whose runs out of text are resumed to what the phrases derive, where a level is left. -/
structure Level.Completable (deep : Prop) (level : Level) (phrases : Phrases) (room : Nat) :
    Prop where
  sound : level.Sound phrases
  opens : phrases.Opens
  balances : level.Balances room
  resolute : level.Resolute
  word (mode : Mode) {token : Token} :
    0 < room → token.kind = .word → ∃ expr, phrases.expr mode [token] expr
  expr {mode : Mode} {here : Place} :
    (level.expr mode).RunsOut deep room here → Starts deep room (phrases.expr mode) here
  statement {here : Place} :
    level.statement.RunsOut deep room here → Starts deep room phrases.statement here

namespace Level.Completable

variable {below : Level} {phrases : Phrases} {mode : Mode} {start : Nat} {node : Expr}
  (h : below.Completable deep phrases room)

include h

theorem grammatical : below.Grammatical :=
  ⟨phrases, h.sound, h.opens⟩

theorem composed_balances {known : Known} {parser : Parser α}
    (hparser : Composed below.Has known parser) : parser.Balances room :=
  Composed.balances h.balances.of_has hparser

theorem slot_word (mode : Mode) (hpos : 0 < room) (hkind : token.kind = .word) :
    ∃ slot, phrases.IsSlot mode [token] slot := by
  obtain ⟨expr, hexpr⟩ := h.word mode hpos hkind
  exact ⟨_, .intro hexpr⟩

theorem slot (hout : (below.slot mode).RunsOut deep room here) :
    Starts deep room (phrases.IsSlot mode) here := by
  rcases hout.bind_offset.bind (h.balances.expr mode) with hexpr | ⟨_, _, -, hrest⟩
  · exact (h.expr hexpr).map fun hcompletes => hcompletes.imp fun hexpr => ⟨_, .intro hexpr⟩
  · exact (RunsOut.make hrest).elim

theorem slot_given {slot : Slot} (hgiven : (below.slot mode).CanGive here slot middle) :
    ∃ tokens, Reads here tokens middle ∧ phrases.IsSlot mode tokens slot := by
  obtain ⟨tokens, hreads, hslot, -⟩ := h.sound.slot h.opens hgiven
  exact ⟨tokens, hreads, hslot⟩

/-- A slot and a token behind it are completed by that token. -/
theorem slot_before (piece : Piece) {expectation : Expectation} {rest : Slot → Token → Parser α}
    (hout : (below.slot mode >>= fun slot =>
      expect piece.kind expectation >>= rest slot).RunsOut deep room here)
    (hrest : ∀ {slot token here}, ¬ (rest slot token).RunsOut deep room here) :
    Starts deep room (Phrases.Before (phrases.IsSlot mode) piece.kind) here :=
  hout.starts_before (h.composed_balances (below.composed_slot mode)) h.slot h.slot_given hrest

/-- A block is completed with the bracket that closes it, whether or not a statement can start. -/
theorem block (hout : below.block.RunsOut deep room here) : Resumes deep phrases.IsBlock here := by
  rcases hout.bind_expect with ⟨hended, -⟩ | ⟨brace, hnext, hkind, hrest⟩
  · refine .inl (.of_ended hended [.openCurly, .closeCurly] ?_)
    rintro _ (_ | ⟨⟨hopen, -⟩, _ | ⟨⟨hclose, -⟩, ⟨⟩⟩⟩)
    exact ⟨[], .empty hopen hclose⟩
  have hitem : (do
      if (← next? .closeCurly).isSome then return none else return some (← below.statement) :
        Parser (Option Statement)).Balances room := by
    refine .bind (.of_composed (.next? _)) fun close => ?_
    split
    · exact .pure _
    · exact .bind h.balances.statement fun _ => .pure _
  rcases hrest.bind (.many h.grammatical.length_lt_of_blockStatement? hitem) with
    hout | ⟨_, _, -, hout⟩
  · suffices hseries : Resumes deep
        (Phrases.Before (Phrases.Series phrases.statement) .closeCurly) (here.past brace) by
      refine hseries.behind (.single hnext) ?_
      rintro _ statements ⟨inner, close, rfl, hseries, hclose⟩
      exact ⟨statements, .intro hkind hseries hclose⟩
    refine hout.many h.grammatical.length_lt_of_blockStatement? hitem ?_ ?_
    · intro here hout
      rcases hout.bind_next? with ⟨-, hout⟩ | ⟨_, -, -, hout⟩
      · rcases hout.bind h.balances.statement with hout | ⟨_, _, -, hout⟩
        · rcases h.statement hout with ⟨-, hended⟩ | ⟨-, hresumes⟩
          · refine .inl (.of_ended hended [.closeCurly] ?_)
            rintro _ (_ | ⟨⟨hclose, -⟩, ⟨⟩⟩)
            exact ⟨[], [], _, rfl, .nil, hclose⟩
          · refine hresumes.map fun hcompletes => (hcompletes.closed .closeCurly).imp ?_
            rintro _ statement ⟨inner, close, rfl, hstatement, hclose⟩
            exact ⟨[statement], inner, close, rfl, .single hstatement, hclose⟩
        · exact (RunsOut.pure hout).elim
      · exact (RunsOut.pure hout).elim
    · intro here statement middle hgiven hmore
      obtain ⟨close?, _, hclose, hgiven⟩ := hgiven.bind
      rcases hclose.next? with ⟨_, rfl, -⟩ | ⟨rfl, rfl, -⟩
      · cases hgiven.pure.1
      · obtain ⟨_, _, hstatement, hgiven⟩ := hgiven.bind
        obtain ⟨-, rfl⟩ := hgiven.pure
        obtain ⟨tokens, hreads, hderived, -⟩ := h.sound.statement hstatement
        refine hmore.behind hreads ?_
        rintro _ statements ⟨inner, close, rfl, hseries, hclose⟩
        exact ⟨_, tokens ++ inner, close, by simp, .cons hderived hseries, hclose⟩
  · exact (RunsOut.make hout).elim

/-! ## Chains -/

theorem arguments (hout : below.arguments.RunsOut deep room here) :
    Resumes deep (Phrases.Closed (phrases.IsSlot .item)) here :=
  resumes_separated h.grammatical.length_le_of_slot
    (h.composed_balances (below.composed_slot .item)) h.slot h.slot_given hout

/-- The text runs out in a round of a chain: behind a comma, or in an access, a call or a default
value. -/
theorem link (hout : (below.link start mode node).RunsOut deep room here) :
    Resumes deep (phrases.IsTail mode start node) here ∧
      (here.Follows .item → Resumes deep (phrases.IsEnd mode start node) here) := by
  rcases hout.bind_peek? with ⟨-, hout⟩ | ⟨token, hnext, hout⟩
  · exact (RunsOut.pure hout).elim
  dsimp only at hout
  have hother {production : List Token → Expr → Prop}
      (hkind : Mode.item.stopsBefore token.kind = false) :
      here.Follows .item → Resumes deep production here := by
    intro hfollows
    rw [hfollows.stopsBefore hnext] at hkind
    cases hkind
  split at hout
  · exact (RunsOut.pure hout).elim
  · exact (RunsOut.pure hout).elim
  · exact (RunsOut.pure hout).elim
  · exact (RunsOut.pure hout).elim
  · next hkind =>
    split at hout
    · exact (RunsOut.pure hout).elim
    · next hcomma =>
      rcases hout.bind_take.bind (h.balances.expr mode) with hright | ⟨_, _, -, hout⟩
      · have hend : Resumes deep (phrases.IsEnd mode start node) here :=
          (h.expr hright).behind (.single hnext) (.single (by rw [hkind]; rfl)) fun hright =>
            ⟨_, .comma (Bool.eq_false_iff.2 hcomma) hkind hright⟩
        exact ⟨hend.imp fun hend => ⟨_, .done hend⟩, fun _ => hend⟩
      · exact (RunsOut.make hout).elim
  · exact (RunsOut.make hout.bind_take).elim
  · next hkind =>
    refine ⟨?_, hother (by rw [hkind]; rfl)⟩
    refine (h.slot_before .closeSquare hout.bind_take RunsOut.make).behind (.single hnext)
      (.single (by rw [hkind]; rfl)) ?_
    rintro _ slot ⟨inner, close, rfl, hslot, hclose⟩
    exact ⟨_, by simpa using Phrases.IsTail.link (.index hkind hslot hclose) (.done .stop)⟩
  · next hkind =>
    refine ⟨?_, hother (by rw [hkind]; rfl)⟩
    rcases hout.bind_take.bind (h.composed_balances
      (h.grammatical.composed_arguments h.resolute hkind)) with hout | ⟨_, _, -, hout⟩
    · refine (h.arguments hout).behind (.single hnext) fun harguments => ?_
      exact ⟨_, by simpa using Phrases.IsTail.link (.call hkind harguments) (.done .stop)⟩
    · exact (RunsOut.make hout).elim
  · next hkind =>
    refine ⟨?_, hother (by rw [hkind]; rfl)⟩
    split at hout
    · next hdefault =>
      split at hout
      · rcases hout.bind_take.bind (h.composed_balances (below.composed_slot .item)) with
          hout | ⟨_, _, -, hout⟩
        · refine (h.slot hout).behind (.single hnext) (.single (by rw [hkind]; rfl))
            fun hslot => ?_
          exact ⟨_, by simpa using Phrases.IsTail.fallback hdefault hkind hslot .stop⟩
        · exact (RunsOut.make hout).elim
      · exact (RunsOut.unexpected hout).elim
    · exact (RunsOut.unexpected hout).elim
  · exact (RunsOut.unexpected hout).elim

/-- A chain that runs out of text is completed to a tail, and to an end where an item may stop. -/
theorem chain (hout : (below.chain start mode node).RunsOut deep room here) :
    Resumes deep (phrases.IsTail mode start node) here ∧
      (here.Follows .item → Resumes deep (phrases.IsEnd mode start node) here) := by
  refine hout.repeated
    (motive := fun node here => Resumes deep (phrases.IsTail mode start node) here ∧
      (here.Follows .item → Resumes deep (phrases.IsEnd mode start node) here))
    (h.grammatical.advances_link start mode)
    (fun node => h.composed_balances (h.grammatical.composed_link h.resolute start mode node))
    h.link ?_
  intro node next here middle hround hmotive
  rcases h.sound.link h.opens hround with
    ⟨_, _, hdone, -⟩ | ⟨_, tokens, hagain, hreads, hlink⟩ |
    ⟨name, assign, tokens, source, rfl, hdefault, hkind, hreads, hslot, hagain, hitem⟩
  · cases hdone
  · cases hagain
    exact ⟨hmotive.1.behind hreads fun htail => ⟨_, .link hlink htail⟩,
      fun hfollows => absurd hfollows (hlink.not_follows hreads)⟩
  · cases hagain
    refine ⟨(hmotive.2 hitem).behind hreads
      fun hend => ⟨_, .fallback hdefault hkind hslot hend⟩, fun hfollows => ?_⟩
    have hstops := hfollows.stopsBefore (Reads.cons_iff.1 hreads).1
    rw [hkind] at hstops
    cases hstops

/-! ## Object literals -/

/-- A computed key is completed with the bracket that closes it. A level is left for a value behind
it, as for what it holds. -/
theorem objectKey {first : Token} (hnext : here.Next first)
    (hout : (below.objectKey first).RunsOut deep room (here.past first)) :
    Barred deep here ∨ (0 < room ∧ Completes phrases.IsKey here) := by
  unfold Level.objectKey at hout
  split at hout
  · next hkind =>
    rcases h.slot_before .closeSquare hout RunsOut.pure with
      ⟨hdeep, hended⟩ | ⟨hpos, hcompletes | hbarred⟩
    · exact .inl ⟨hdeep, [first], _, .single hnext, hended, .single (by rw [hkind]; rfl)⟩
    · refine .inr ⟨hpos, hcompletes.behind (.single hnext) ?_⟩
      rintro _ slot ⟨inner, close, rfl, hslot, hclose⟩
      exact ⟨_, .computed hkind hslot hclose⟩
    · exact .inl (hbarred.behind (.single hnext))
  · exact (RunsOut.pure hout).elim
  · exact (RunsOut.pure hout).elim
  · exact (RunsOut.pure hout).elim
  · exact (RunsOut.unexpected hout).elim

/-- A colon and a word complete a field behind its key. -/
theorem entry_spelled {key : ObjectKey} {more : List Token} (hpos : 0 < room)
    (hkey : phrases.IsKey tokens key) (hspelled : Spelled [.colon, .name] more) :
    ∃ field, phrases.IsField (tokens ++ more) field := by
  rcases hspelled with _ | ⟨⟨hcolon, -⟩, _ | ⟨⟨hname, -⟩, ⟨⟩⟩⟩
  obtain ⟨slot, hslot⟩ := h.slot_word .item hpos hname
  exact ⟨_, .entry hkey hcolon hslot⟩

theorem objectField (hout : below.objectField.RunsOut deep room here) :
    Resumes deep phrases.IsField here := by
  rcases hout.bind_next with ⟨hended, -⟩ | ⟨first, hnext, hout⟩
  · refine .inl (.of_ended hended [.name] ?_)
    rintro _ (_ | ⟨⟨hkind, -⟩, ⟨⟩⟩)
    exact ⟨_, .shorthand hkind⟩
  rcases hout.bind (h.composed_balances (below.composed_objectKey first)) with
    hout | ⟨key, middle, hkey, hout⟩
  · rcases h.objectKey hnext hout with hbarred | ⟨hpos, hkey⟩
    · exact .inr hbarred
    · exact .inl (hkey.append [.colon, .name] (h.entry_spelled hpos))
  obtain ⟨tokens, hreads, hderived⟩ := h.sound.objectKey h.opens hnext hkey
  rcases hout.bind (h.composed_balances (.shorthand? key)) with hout | ⟨value?, _, hvalue, hout⟩
  -- A name is its own value where the text may go on with the end of the field.
  · cases hderived with
    | @name token hkind =>
        rcases hout.bind_peek with ⟨hended, -⟩ | ⟨_, -, hout⟩
        · refine .inl ⟨[token], middle, [], hreads, hended, ?_⟩
          rintro _ ⟨⟩
          exact ⟨_, .shorthand hkind⟩
        · split at hout <;> exact (RunsOut.pure hout).elim
    | string | number | computed => exact (RunsOut.pure hout).elim
  · obtain ⟨-, rfl⟩ := canGive_shorthand? hvalue
    cases value? with
    | some value => exact (RunsOut.make hout).elim
    | none =>
        rcases hout.bind_expect with ⟨hended, hpos⟩ | ⟨colon, hcolonNext, hcolon, hout⟩
        · exact .inl ⟨tokens, middle, [.colon, .name], hreads, hended,
            fun more => h.entry_spelled hpos hderived⟩
        · rcases hout.bind (h.composed_balances (below.composed_slot .item)) with
            hout | ⟨_, _, -, hout⟩
          · refine (h.slot hout).behind (hreads.append (.single hcolonNext))
              (.concat _ (by rw [hcolon]; rfl)) fun hslot => ?_
            exact ⟨_, by simpa using Phrases.IsField.entry hderived hcolon hslot⟩
          · exact (RunsOut.make hout).elim

/-- The fields of an object are completed with the bracket that closes it. -/
theorem fields (hout : (many below.objectField?).RunsOut deep room here) :
    Resumes deep (Phrases.Before phrases.IsFields .closeCurly) here := by
  -- Where the loop goes on, the closing bracket is not next.
  suffices hfields : (∀ close, here.Next close → close.kind ≠ .closeCurly) ∧
      Resumes deep (Phrases.Before phrases.IsFields .closeCurly) here from hfields.2
  refine hout.many (motive := fun here => (∀ close, here.Next close → close.kind ≠ .closeCurly) ∧
    Resumes deep (Phrases.Before phrases.IsFields .closeCurly) here)
    h.grammatical.length_lt_of_objectField? (h.composed_balances below.composed_objectField?) ?_ ?_
  · intro here hout
    rcases hout.bind_next? with ⟨hother, hout⟩ | ⟨_, -, -, hout⟩
    · have hopen (close : Token) (hclose : here.Next close) : close.kind ≠ .closeCurly :=
        hclose.of_ended_or hother
      refine ⟨hopen, ?_⟩
      rcases hout.bind (h.composed_balances below.composed_objectField) with
        hout | ⟨field, middle, hgiven, hout⟩
      · refine (h.objectField hout).map fun hcompletes => (hcompletes.closed .closeCurly).imp ?_
        rintro _ field ⟨inner, close, rfl, hfield, hclose⟩
        exact ⟨[field], inner, close, rfl, .last hfield, hclose⟩
      obtain ⟨tokens, hreads, hfield⟩ := h.sound.objectField h.opens hgiven
      rcases hout.bind_peek with ⟨hended, -⟩ | ⟨token, -, hout⟩
      · refine .inl ⟨tokens, middle, [.closeCurly], hreads, hended, ?_⟩
        rintro _ (_ | ⟨⟨hkind, -⟩, ⟨⟩⟩)
        exact ⟨[field], tokens, _, rfl, .last hfield, hkind⟩
      · split at hout
        · exact (RunsOut.pure hout.bind_take).elim
        · exact (RunsOut.pure hout).elim
        · exact (RunsOut.unexpected (α := Option ObjectField) hout).elim
    · exact (RunsOut.pure hout).elim
  · intro here field middle hgiven ⟨hopen, hmore⟩
    rcases h.sound.objectField? h.opens hgiven with
      ⟨_, hnone, -⟩ | ⟨_, tokens, last, hsome, hfirst, hreads, hfield, hbehind⟩
    · cases hnone
    cases hsome
    refine ⟨hfirst, ?_⟩
    rcases hbehind with ⟨comma, hcomma, hkind, rfl⟩ | ⟨close, hclose, hkind, rfl⟩
    · refine hmore.behind (hreads.append (.single hcomma)) ?_
      rintro _ fields ⟨inner, close, rfl, hfields, hclose⟩
      exact ⟨_, tokens ++ comma :: inner, close, by simp, .more hfield hkind hfields, hclose⟩
    · exact absurd hkind (hopen close hclose)

/-- An object literal, or a pattern and what it takes apart, is completed to an expression. -/
theorem object {brace : Token} (hnext : here.Next brace) (hkind : brace.kind = .openCurly)
    (hout : (below.object brace).RunsOut deep room here) :
    Resumes deep (phrases.IsExpression mode) here := by
  rcases hout.bind_take.bind (.many h.grammatical.length_lt_of_objectField?
    (h.composed_balances below.composed_objectField?)) with hout | ⟨fields, middle, hfields, hout⟩
  · refine (h.fields hout).behind (.single hnext) ?_
    rintro _ fields ⟨inner, close, rfl, hfields, hclose⟩
    exact ⟨_, (Phrases.IsPrimary.object (.intro hkind hfields hclose)).isExpression⟩
  obtain ⟨inner, last, close, hreads, hderived, hclose, hcloseKind, rfl⟩ :=
    h.sound.fields h.opens hfields
  have hliteral := Reads.cons hnext (hreads.append (.single hclose))
  have hobject := Phrases.IsObject.intro hkind hderived hcloseKind
  rcases hout.bind_spanFrom.bind_next? with ⟨-, hout⟩ | ⟨assign, hassignNext, hassign, hout⟩
  · exact (RunsOut.pure hout).elim
  · obtain ⟨target, htarget, hout⟩ := hout.bind_rebound
    rw [hliteral.lastStop_eq (List.cons_ne_nil _ _)] at htarget
    rcases hout.bind (h.composed_balances (below.composed_slot .item)) with hout | ⟨_, _, -, hout⟩
    · refine (h.slot hout).behind (hliteral.append (.single hassignNext))
        (.concat _ (by rw [hassign]; rfl)) fun hslot => ?_
      exact ⟨_, by simpa using
        Phrases.IsExpression.unpacking hobject htarget hassign hslot .stop⟩
    · exact (RunsOut.make hout).elim

/-! ## Groups and arrow functions -/

/-- What follows the parameters of an arrow function completes an expression with them. -/
theorem arrowFunction {parameters : Parameters} {arrow : Token}
    (hparameters : phrases.IsParameters tokens parameters) (hnext : here.Next arrow)
    (hkind : arrow.kind = .arrow)
    (hout : (below.arrowFunction parameters arrow mode).RunsOut deep room here) :
    Resumes deep (fun more => phrases.IsExpression mode (tokens ++ more)) here := by
  rcases hout.bind_take.bind_peek? with ⟨hended, -⟩ | ⟨token, hnextToken, hout⟩
  -- An empty block needs no level.
  · exact .inl ⟨[arrow], _, [.openCurly, .closeCurly], .single hnext, hended,
      fun _ => hparameters.isExpression hkind⟩
  split at hout
  · rcases hout.bind (h.composed_balances (h.grammatical.composed_block h.resolute)) with
      hout | ⟨⟨statements, span⟩, _, hblock, hout⟩
    · refine (h.block hout).behind (.single hnext) fun hblock => ?_
      have hexpr : phrases.IsExpression mode _ _ :=
        .arrowBlock hparameters hkind hblock (.done .stop)
      exact ⟨_, by simpa using hexpr⟩
    · obtain ⟨more, hmore, hderived, rfl⟩ := h.sound.block hblock
      have hne : more ≠ [] := by cases hderived; simp
      have hchain := hout.bind_spanFrom
      rw [hparameters.offset_eq, hmore.lastStop_eq hne] at hchain
      refine (h.chain hchain).1.behind (.cons hnext hmore) fun htail => ?_
      exact ⟨_, .arrowBlock hparameters hkind hderived htail⟩
  · next hother =>
    rcases hout.bind (h.composed_balances (below.composed_slot mode.value)) with
      hout | ⟨_, _, -, hout⟩
    · have hslot := (h.slot hout).resumes hnextToken
      refine (hslot.map fun hcompletes => hcompletes.head hnextToken).behind (.single hnext) ?_
      rintro more body ⟨hslot, hhead⟩
      obtain ⟨kind, text, span⟩ := token
      have hcurly : more.head?.map (·.kind) ≠ some .openCurly := by
        rw [hhead]
        rintro ⟨⟩
        exact hother text span rfl
      exact ⟨_, .arrow hparameters hkind hcurly hslot⟩
    · exact (RunsOut.make hout).elim

theorem group {bracket : Token} (hnext : here.Next bracket) (hkind : bracket.kind = .openRound)
    (hout : (below.group bracket mode).RunsOut deep room here) :
    Resumes deep (phrases.IsExpression mode) here := by
  rcases hout.bind_take.bind_next? with ⟨-, hout⟩ | ⟨close, hcloseNext, hclose, hout⟩
  · rcases hout.bind (h.balances.expr .group) with hout | ⟨content, middle, hcontent, hout⟩
    · rcases h.expr hout with ⟨-, hended⟩ | ⟨-, hresumes⟩
      -- An arrow function with no parameters and an empty block needs no level.
      · refine .inl ⟨[bracket], _, [.closeRound, .arrow, .openCurly, .closeCurly], .single hnext,
          hended, ?_⟩
        rintro _ (_ | ⟨⟨hclose, -⟩, _ | ⟨⟨harrow, -⟩, hspelled⟩⟩)
        exact (Phrases.IsParameters.empty hkind hclose).isExpression harrow hspelled
      refine (hresumes.map fun hcompletes => hcompletes.closed .closeRound).behind
        (.single hnext) ?_
      rintro _ content ⟨inner, close, rfl, hcontent, hclose⟩
      exact ⟨_, (Phrases.IsPrimary.group hkind hcontent hclose).isExpression⟩
    obtain ⟨inner, hreads, hderived, -⟩ := h.sound.expr hcontent
    rcases hout.bind_expect with ⟨hended, -⟩ | ⟨close, hcloseNext, hclose, hout⟩
    · refine .inl ⟨bracket :: inner, middle, [.closeRound], .cons hnext hreads, hended, ?_⟩
      rintro _ (_ | ⟨⟨hclose, -⟩, ⟨⟩⟩)
      exact ⟨_, (Phrases.IsPrimary.group hkind hderived hclose).isExpression⟩
    have hgroup := Reads.cons hnext (hreads.append (.single hcloseNext))
    have hchain (hout : (below.chain bracket.span.offset mode content).RunsOut deep room
        (middle.past close)) : Resumes deep (phrases.IsExpression mode) here :=
      (h.chain hout).1.behind hgroup fun htail =>
        ⟨_, .chain (.group hkind hderived hclose) htail⟩
    -- Only an arrow makes the content of the group parameters.
    rcases hout.bind_peek? with ⟨-, hout⟩ | ⟨token, harrow, hout⟩
    · exact hchain hout
    · split at hout
      · next text span heq =>
        cases heq
        obtain ⟨parameters, hparameters, hout⟩ := hout.bind_rebound
        have hderived : phrases.IsParameters (bracket :: (inner ++ [close])) parameters :=
          .group hkind hderived hclose (by simpa [cover] using hparameters)
        exact (h.arrowFunction hderived harrow rfl hout).behind hgroup fun hexpression =>
          ⟨_, hexpression⟩
      · exact hchain hout
  · have hgroup : Reads here [bracket, close] _ := .cons hnext (.single hcloseNext)
    have hparameters : phrases.IsParameters [bracket, close] _ := .empty hkind hclose
    rcases hout.bind_peek with ⟨hended, -⟩ | ⟨arrow, harrowNext, hout⟩
    · refine .inl ⟨[bracket, close], _, [.arrow, .openCurly, .closeCurly], hgroup, hended, ?_⟩
      rintro _ (_ | ⟨⟨harrow, -⟩, hspelled⟩)
      exact hparameters.isExpression harrow hspelled
    · split at hout
      · next harrow =>
        exact (h.arrowFunction hparameters harrowNext harrow hout).behind hgroup fun hexpression =>
          ⟨_, hexpression⟩
      · exact (RunsOut.unexpected hout).elim

/-! ## Expressions -/

theorem expression (hout : (below.expression mode).RunsOut deep room here) :
    Resumes deep (phrases.IsExpression mode) here := by
  rcases hout.bind_peek with ⟨hended, -⟩ | ⟨token, hnext, hout⟩
  · refine .inl (.of_ended hended [.name] ?_)
    rintro _ (_ | ⟨⟨hkind, -⟩, ⟨⟩⟩)
    exact ⟨_, (Phrases.IsPrimary.name hkind).isExpression⟩
  have hsingle {node : Expr} (hprimary : phrases.IsPrimary [token] node)
      (hout : (below.chain token.span.offset mode node).RunsOut deep room (here.past token)) :
      Resumes deep (phrases.IsExpression mode) here :=
    (h.chain hout).1.behind (.single hnext) fun htail => ⟨_, .chain hprimary htail⟩
  dsimp only at hout
  split at hout
  · next hkind => exact hsingle (.string hkind) hout.bind_take
  · next hkind => exact hsingle (.number hkind) hout.bind_take
  · next hkind => exact hsingle (.name hkind) hout.bind_take
  · next hkind =>
    rcases hout.bind (h.composed_balances (h.grammatical.composed_object token)) with
      hout | ⟨node, middle, hobject, hout⟩
    · exact h.object hnext hkind hout
    rcases h.sound.object h.opens hnext hkind hobject with
      ⟨tokens, hreads, hderived⟩ |
      ⟨tokens, literal, target, assign, more, source, hreads, hderived, htarget, hassign, hsource,
        hitem, rfl⟩
    · have hoffset : startOf tokens = token.span.offset := by
        rw [← hreads.offset_eq hderived.opening.ne_nil, hnext.offset_eq]
      exact (h.chain hout).1.behind hreads fun htail =>
        ⟨_, .chain (.object hderived) (hoffset ▸ htail)⟩
    -- What a pattern unpacks stops where an item of a list may, so its chain comes to an end.
    · have hoffset : startOf tokens = token.span.offset := by
        rw [← startOf_append _ hderived.opening.ne_nil, ← hreads.offset_eq (by simp),
          hnext.offset_eq]
      rw [← hoffset] at hout
      exact ((h.chain hout).2 hitem).behind hreads fun hend =>
        ⟨_, by simpa using Phrases.IsExpression.unpacking hderived htarget hassign hsource hend⟩
  · next hkind => exact h.group hnext hkind hout
  · exact (RunsOut.unexpected hout).elim

/-! ## Statements -/

section Statements

variable {keyword : Token} {modifier : Modifier}

/-- A value and a semicolon complete a declaration behind its name. -/
theorem initialized_spelled {name : Name} {more : List Token} (hpos : 0 < room)
    (hkind : keyword.kind = .word) (hmodifier : Modifier.ofWord? keyword.text = some modifier)
    (hname : Phrases.IsName tokens name) (hspelled : Spelled [.assign, .name, .semicolon] more) :
    ∃ statement, phrases.IsBody (keyword :: (tokens ++ more)) statement := by
  rcases hspelled with _ | ⟨⟨hassign, -⟩, _ | ⟨⟨hvalue, -⟩, _ | ⟨⟨hsemicolon, -⟩, ⟨⟩⟩⟩⟩
  obtain ⟨slot, hslot⟩ := h.slot_word .plain hpos hvalue
  exact ⟨_, .initialized hkind hmodifier hname hassign hslot hsemicolon⟩

theorem initializer? {name : Name} (hkind : keyword.kind = .word)
    (hmodifier : Modifier.ofWord? keyword.text = some modifier)
    (hname : Phrases.IsName tokens name)
    (hout : (below.initializer? modifier).RunsOut deep room here) :
    Resumes deep (fun more => phrases.IsBody (keyword :: (tokens ++ more))) here := by
  rcases hout.bind_next with ⟨hended, hpos⟩ | ⟨token, hnext, hout⟩
  · exact .inl (.of_ended hended [.assign, .name, .semicolon] fun _ =>
      h.initialized_spelled hpos hkind hmodifier hname)
  split at hout
  · next hassign =>
    refine (h.slot_before .semicolon hout RunsOut.pure).behind (.single hnext)
      (.single (by rw [hassign]; rfl)) ?_
    rintro _ slot ⟨inner, semicolon, rfl, hslot, hsemicolon⟩
    exact ⟨_, .initialized hkind hmodifier hname hassign hslot hsemicolon⟩
  · split at hout
    · exact (RunsOut.unexpected hout).elim
    · split at hout
      · exact (RunsOut.pure hout).elim
      · exact (RunsOut.unexpected hout).elim

theorem variableDeclaration (hnext : here.Next keyword) (hkind : keyword.kind = .word)
    (hmodifier : Modifier.ofWord? keyword.text = some modifier)
    (hout : (below.variableDeclaration keyword modifier).RunsOut deep room here) :
    Resumes deep phrases.IsBody here := by
  suffices hrest :
      Resumes deep (fun more => phrases.IsBody (keyword :: more)) (here.past keyword) from
    hrest.behind (.single hnext) fun hbody => ⟨_, hbody⟩
  rcases hout.bind_take.bind (h.composed_balances (.declaredName _)) with
    hout | ⟨name, middle, hname, hout⟩
  · obtain ⟨hpos, hname⟩ := completes_declaredName hout
    exact .inl (hname.append [.assign, .name, .semicolon]
      (h.initialized_spelled hpos hkind hmodifier))
  obtain ⟨tokens, hreads, hnamed⟩ := Level.Sound.declaredName hname
  rcases hout.bind (h.composed_balances (below.composed_initializer? modifier)) with
    hout | ⟨_, _, -, hout⟩
  · exact (h.initializer? hkind hmodifier hnamed hout).behind hreads fun hbody => ⟨_, hbody⟩
  · exact (RunsOut.note_make hout).elim

theorem functionDeclaration (hnext : here.Next keyword) (hkind : keyword.kind = .word)
    (htext : keyword.text = Spelling.functionWord)
    (hout : (below.functionDeclaration keyword).RunsOut deep room here) :
    Resumes deep phrases.IsBody here := by
  have hempty {tokens more : List Token} {name : Name} (hname : Phrases.IsName tokens name)
      (hspelled : Spelled [.openRound, .closeRound, .openCurly, .closeCurly] more) :
      ∃ statement, phrases.IsBody (keyword :: (tokens ++ more)) statement := by
    rcases hspelled with
      _ | ⟨⟨hround, -⟩, _ | ⟨⟨hclose, -⟩, _ | ⟨⟨hcurly, -⟩, _ | ⟨⟨hend, -⟩, ⟨⟩⟩⟩⟩⟩
    exact ⟨_, .function hkind htext hname hround (.empty hclose) (.empty hcurly hend)⟩
  suffices hrest :
      Resumes deep (fun more => phrases.IsBody (keyword :: more)) (here.past keyword) from
    hrest.behind (.single hnext) fun hbody => ⟨_, hbody⟩
  rcases hout.bind_take.bind (h.composed_balances (.declaredName _)) with
    hout | ⟨name, opened, hname, hout⟩
  · exact .inl ((completes_declaredName hout).2.append _ hempty)
  obtain ⟨tokens, hreads, hnamed⟩ := Level.Sound.declaredName hname
  rcases hout.bind_expect with ⟨hended, -⟩ | ⟨bracket, hbracketNext, hbracket, hout⟩
  · exact .inl ⟨tokens, opened, _, hreads, hended, fun _ => hempty hnamed⟩
  have hopened := hreads.append (.single hbracketNext)
  rcases hout.bind (h.composed_balances (.separated _ (.behind (by rw [hbracket]; rfl))
    length_le_of_declaredName (.declaredName _) (.bind_next _) fun _ => .bind_next _)) with
    hout | ⟨parameters, middle, hparameters, hout⟩
  · have hclosed := resumes_separated length_le_of_declaredName
      (h.composed_balances (.declaredName _))
      (fun hname => .inr ⟨(completes_declaredName hname).1, .inl (completes_declaredName hname).2⟩)
      Level.Sound.declaredName hout
    suffices hbody :
        Resumes deep (fun more => phrases.IsBody (keyword :: (tokens ++ bracket :: more)))
          (opened.past bracket) from
      hbody.behind hopened fun hbody => ⟨_, by simpa using hbody⟩
    refine hclosed.map fun hcompletes => hcompletes.append [.openCurly, .closeCurly] ?_
    rintro more parameters _ hclosed (_ | ⟨⟨hcurly, -⟩, _ | ⟨⟨hend, -⟩, ⟨⟩⟩⟩)
    exact ⟨_, .function hkind htext hnamed hbracket hclosed (.empty hcurly hend)⟩
  obtain ⟨more, hmore, hclosed⟩ :=
    Phrases.Closed.of_separated Phrases.IsName Level.Sound.declaredName hparameters
  rcases hout.bind (h.composed_balances (h.grammatical.composed_block h.resolute)) with
    hout | ⟨⟨_, _⟩, _, -, hout⟩
  · exact (h.block hout).behind (hopened.append hmore) fun hblock =>
      ⟨_, by simpa using Phrases.IsBody.function hkind htext hnamed hbracket hclosed hblock⟩
  · exact (RunsOut.note_make hout).elim

theorem expressionStatement (hnext : here.Next token)
    (hreserved : token.kind = .word → Spelling.isReserved token.text = false)
    (hout : below.expressionStatement.RunsOut deep room here) :
    Resumes deep phrases.IsBody here := by
  have hstarted := (h.slot_before .semicolon hout RunsOut.pure).resumes hnext
  refine (hstarted.map fun hcompletes => hcompletes.head hnext).imp ?_
  rintro _ slot ⟨⟨inner, semicolon, rfl, hslot, hsemicolon⟩, hhead⟩
  refine ⟨_, .expression ?_ hslot hsemicolon⟩
  obtain ⟨first, rest, rfl, -⟩ := hslot.opening h.opens
  obtain rfl : first = token := by simpa using hhead
  simpa [Phrases.startsReserved] using hreserved

theorem statementBody (hout : below.statementBody.RunsOut deep room here) :
    Resumes deep phrases.IsBody here := by
  rcases hout.bind_peek with ⟨hended, hpos⟩ | ⟨token, hnext, hout⟩
  · refine .inl (.of_ended hended [.name, .semicolon] ?_)
    rintro _ (_ | @⟨_, token, _, _, ⟨hname, htext⟩, _ | ⟨⟨hsemicolon, -⟩, ⟨⟩⟩⟩)
    obtain ⟨slot, hslot⟩ := h.slot_word .plain hpos hname
    have hreserved : Phrases.startsReserved [token] = false := by
      simp only [Phrases.startsReserved, List.head?_cons, Option.any_some, htext]
      exact Bool.and_false _
    exact ⟨_, .expression hreserved hslot hsemicolon⟩
  split at hout
  · next hkind =>
    split at hout
    · next hmodifier => exact h.variableDeclaration hnext hkind hmodifier hout
    · next hmodifier =>
      split at hout
      · next htext => exact h.functionDeclaration hnext hkind htext hout
      · next htext =>
        split at hout
        · exact (RunsOut.fail (by simp) (by simp) hout).elim
        · next hunsupported =>
          exact h.expressionStatement hnext
            (fun _ => Spelling.isReserved_eq_false hmodifier htext hunsupported) hout
  · next hkind => exact h.expressionStatement hnext (fun hword => absurd hword hkind) hout

end Statements

end Level.Completable

/-! ## Levels -/

/-- The redundant semicolons behind a statement never lack text. -/
theorem Parser.RunsOut.terminated {body : Parser Statement}
    (hbody : (Parser.construct .statement body).Balances room)
    (h : (Level.terminated body).RunsOut deep room here) :
    (Parser.construct .statement body).RunsOut deep room here := by
  rcases h.bind_offset.bind (hbody.inStatement _) with hbody | ⟨_, _, -, hrest⟩
  · exact hbody.inStatement
  rcases hrest.bind (.of_composed .semicolons) with hmore | ⟨_, _, -, hrest⟩
  · exact (hmore.many (motive := fun _ => False) length_lt_of_next? (.of_composed (.next? _))
      RunsOut.next? fun _ h => h).elim
  · exact (RunsOut.pure hrest).elim

/-- A run of a level that runs out of text, with fewer constructs open than there are levels, is
resumed to what is derived with as many statements and expressions on any path. -/
theorem completable_ofHeight (deep : Prop) (height : Nat) :
    (Level.ofHeight height).Completable deep (.ofHeight height) height := by
  induction height with
  | zero =>
      exact {
        sound := sound_ofHeight 0
        opens := Phrases.opens_ofHeight 0
        balances := balances_ofHeight 0
        resolute := resolute_ofHeight 0
        word := fun _ _ hpos => absurd hpos (Nat.lt_irrefl 0)
        expr := fun hout => .inl hout.construct_tooDeep
        statement := fun hout => .inl (hout.terminated (.construct_tooDeep _)).construct_tooDeep }
  | succ height ih =>
      have hbody {α : Type} {known : Known} {parser : Parser α}
          (h : Composed (Level.ofHeight height).Has known parser) :=
        ih.composed_balances h
      exact {
        sound := sound_ofHeight (height + 1)
        opens := Phrases.opens_ofHeight (height + 1)
        balances := balances_ofHeight (height + 1)
        resolute := resolute_ofHeight (height + 1)
        word := fun _ _ _ hkind => ⟨_, (Phrases.IsPrimary.name hkind).isExpression⟩
        expr := fun hout => .inr ⟨Nat.succ_pos height, ih.expression (hout.construct_within
          (hbody (ih.grammatical.composed_expression ih.resolute _)))⟩
        statement := fun hout => by
          have hstatement := hbody (ih.grammatical.composed_statementBody ih.resolute)
          have hresumes := ih.statementBody ((hout.terminated
            (.construct_within hstatement _)).construct_within hstatement)
          exact .inr ⟨Nat.succ_pos height, hresumes.imp fun hbody => ⟨_, hbody.isStatement⟩⟩ }

/-- Statements whose text runs out are resumed. -/
theorem resumes_statements {limit : Nat}
    (hout : (Level.ofHeight limit).statements.RunsOut deep limit here) :
    Resumes deep (Derives limit) here := by
  have h := completable_ofHeight deep limit
  refine hout.many h.grammatical.length_lt_of_statement? ?_ ?_ ?_
  · exact .bind (fun _ => .ok rfl rfl) fun ended => by
      split
      · exact .pure _
      · exact .bind h.balances.statement fun _ => .pure _
  · intro here hout
    have hout := hout.bind_atEnd
    split at hout
    · exact (RunsOut.pure hout).elim
    · next hopen =>
      rcases hout.bind h.balances.statement with hout | ⟨_, _, -, hout⟩
      · rcases h.statement hout with ⟨-, hended⟩ | ⟨-, hresumes⟩
        · exact absurd (List.isEmpty_iff.2 (Place.ended_iff.1 hended)) hopen
        · exact hresumes.imp fun hstatement => ⟨_, .single hstatement⟩
      · exact (RunsOut.pure hout).elim
  · intro here statement middle hgiven hmore
    rcases canGive_statement? hgiven with ⟨_, hsome, hgiven⟩ | ⟨hnone, -⟩
    · cases hsome
      obtain ⟨tokens, hreads, hderived, -⟩ := h.sound.statement hgiven
      exact hmore.behind hreads fun hseries => ⟨_, .cons hderived hseries⟩
    · cases hnone

end Scriptlet
