import Scriptlet.Parse.Nesting
import Scriptlet.Proofs.Grammar
import Scriptlet.Proofs.Repetition

/-!
# What the parser gives is derived

Whatever a parser of the grammar can give is derived from the tokens that it takes, and what it
leaves is what may follow: `Level.Sound` says so of a level, and `sound_ofHeight` holds it of every
level. Each part of the grammar has one lemma, which takes its run apart.
-/

namespace Scriptlet

/-- The kinds of the tokens that an expression of a mode stops before. -/
def Mode.stopsBefore (mode : Mode) : Kind → Bool
  | .semicolon | .closeRound | .closeSquare | .closeCurly => true
  | .comma => mode.stopAtComma
  | _ => false

/-- An expression stops before a semicolon, a closing bracket, or a comma of a list. -/
theorem Mode.stopsBefore_iff {mode : Mode} {kind : Kind} :
    mode.stopsBefore kind = true ↔ kind = .semicolon ∨ kind = .closeRound ∨ kind = .closeSquare ∨
      kind = .closeCurly ∨ (kind = .comma ∧ mode.stopAtComma = true) := by
  cases kind <;> simp [stopsBefore]

/-- An expression of a mode may stop at a place. -/
def Place.Follows (here : Place) (mode : Mode) : Prop :=
  here.Ended ∨ ∃ token, here.Next token ∧ mode.stopsBefore token.kind = true

/-- Where an expression may stop, it may stop before the token that is next. -/
theorem Place.Follows.stopsBefore {here : Place} {mode : Mode} {token : Token}
    (h : here.Follows mode) (hnext : here.Next token) : mode.stopsBefore token.kind = true :=
  hnext.of_ended_or h

/-- A statement and its redundant semicolons may stop at a place. -/
def Place.FollowsStatement (here : Place) : Prop :=
  here.Ended ∨ ∃ token, here.Next token ∧ token.kind ≠ .semicolon

/-- What a level can give is derived from the tokens that it takes. -/
structure Level.Sound (level : Level) (phrases : Phrases) : Prop where
  expr {mode here expr there} :
    (level.expr mode).CanGive here expr there →
      ∃ tokens, Reads here tokens there ∧ phrases.expr mode tokens expr ∧ there.Follows mode
  statement {here statement there} :
    level.statement.CanGive here statement there →
      ∃ tokens, Reads here tokens there ∧ phrases.statement tokens statement ∧
        there.FollowsStatement

open Scriptlet.Parser

variable {here there : Place} {mode : Mode} {start : Nat} {node : Expr} {token : Token}

/-! ## Lists -/

/-- Items that are derived one by one are derived one after another. -/
theorem Phrases.Series.of_repeats {α : Type} {item? : Place → Option α → Place → Prop}
    (item : List Token → α → Prop) {values : List α}
    (hsome : ∀ {here value there}, item? here (some value) there →
      ∃ tokens, Reads here tokens there ∧ item tokens value)
    (h : Repeats item? here values there) :
    ∃ tokens middle, Reads here tokens middle ∧ Phrases.Series item tokens values ∧
      item? middle none there := by
  induction h with
  | @stop here there hstop => exact ⟨[], here, .nil here, .nil, hstop⟩
  | more hvalue _ ih =>
      obtain ⟨tokens, hreads, hitem⟩ := hsome hvalue
      obtain ⟨more, middle, hmore, hseries, hstop⟩ := ih
      exact ⟨tokens ++ more, middle, hreads.append hmore, .cons hitem hseries, hstop⟩

/-- A bracketed list of items that are derived one by one is derived. -/
theorem Phrases.Closed.of_separated {α : Type} {parser : Parser α} {separator : Expectation}
    (item : List Token → α → Prop) {values : List α}
    (hitem : ∀ {here value there}, parser.CanGive here value there →
      ∃ tokens, Reads here tokens there ∧ item tokens value)
    (h : (separated parser separator).CanGive here values there) :
    ∃ tokens, Reads here tokens there ∧ Phrases.Closed item tokens values := by
  rcases h.separated with ⟨close, rfl, hnext, hkind, rfl⟩ | hitems
  · exact ⟨[close], .single hnext, .empty hkind⟩
  · suffices hlisted : ∃ tokens middle close, Reads here tokens middle ∧ middle.Next close ∧
        close.kind = .closeRound ∧ there = middle.past close ∧
        Phrases.Listed item tokens values by
      obtain ⟨tokens, middle, close, hreads, hnext, hkind, rfl, hlisted⟩ := hlisted
      exact ⟨tokens ++ [close], hreads.append (.single hnext), .filled hlisted hkind⟩
    clear h
    induction hitems with
    | last hvalue hnext hkind =>
        obtain ⟨tokens, hreads, hderived⟩ := hitem hvalue
        exact ⟨tokens, _, _, hreads, hnext, hkind, rfl, .last hderived⟩
    | more hvalue hcomma hkind _ ih =>
        obtain ⟨tokens, hreads, hderived⟩ := hitem hvalue
        obtain ⟨more, middle, close, hmore, hnext, hclose, rfl, hlisted⟩ := ih
        exact ⟨_, middle, close, hreads.append (.cons hcomma hmore), hnext, hclose, rfl,
          .more hderived hkind hlisted⟩

/-! ## Reserved words -/

/-- A reserved word starts a declaration or a statement that the language leaves out. -/
theorem Spelling.isReserved_eq_false {word : String} (hmodifier : Modifier.ofWord? word = none)
    (hfunction : word ≠ functionWord) (hunsupported : ¬ unsupportedWords.contains word = true) :
    isReserved word = false := by
  have hvariable : ¬ word ∈ variableWords := by
    intro hmem
    simp only [variableWords, List.mem_cons, List.not_mem_nil, or_false] at hmem
    rcases hmem with rfl | rfl | rfl <;> simp [Modifier.ofWord?] at hmodifier
  simp only [List.contains_eq_mem, decide_eq_true_eq] at hunsupported
  simp [isReserved, reservedWords, hvariable, hfunction, hunsupported]

/-! ## Where a chain has to end -/

/-- Where an item of a list may stop, no access or call is next. -/
theorem Phrases.IsLink.not_follows {below : Phrases} {tokens : List Token} {next : Expr}
    (h : below.IsLink start node tokens next) (hreads : Reads here tokens there) :
    ¬ here.Follows .item := by
  intro hfollows
  cases h with
  | field hkind | index hkind | call hkind =>
      have hstops := hfollows.stopsBefore (Reads.cons_iff.1 hreads).1
      simp [Mode.stopsBefore, hkind] at hstops

/-- A tail read from where an item of a list may stop is an end. -/
theorem Phrases.IsTail.isEnd {below : Phrases} {tokens : List Token} {expr : Expr}
    (h : below.IsTail mode start node tokens expr) (hreads : Reads here tokens there)
    (hfollows : here.Follows .item) : below.IsEnd mode start node tokens expr := by
  cases h with
  | done hend => exact hend
  | link hlink _ =>
      obtain ⟨middle, hfirst, _⟩ := Reads.append_iff.1 hreads
      exact absurd hfollows (hlink.not_follows hfirst)
  | fallback _ hkind _ _ =>
      have hstops := hfollows.stopsBefore (Reads.cons_iff.1 hreads).1
      simp [Mode.stopsBefore, hkind] at hstops

/-! ## Operations that take no token -/

theorem canGive_rebound {α : Type} {result : Except Violation α} {value : α}
    (h : (Level.rebound result).CanGive here value there) : result = .ok value ∧ here = there := by
  cases result with
  | error violation => exact h.fail.elim
  | ok found =>
      obtain ⟨rfl, rfl⟩ := h.pure
      exact ⟨rfl, rfl⟩

theorem canGive_shorthand? {key : ObjectKey} {value? : Option Slot}
    (h : (Level.shorthand? key).CanGive here value? there) :
    ((∃ name, key = .name name ∧ value? = some (.bare (.name name))) ∨ value? = none) ∧
      here = there := by
  simp only [Level.shorthand?] at h
  split at h
  · next name =>
    obtain ⟨token, _, htoken, hrest⟩ := h.bind
    obtain ⟨-, rfl⟩ := htoken.peek
    split at hrest
    · obtain ⟨rfl, rfl⟩ := hrest.pure
      exact ⟨.inl ⟨name, rfl, rfl⟩, rfl⟩
    · obtain ⟨rfl, rfl⟩ := hrest.pure
      exact ⟨.inl ⟨name, rfl, rfl⟩, rfl⟩
    · obtain ⟨rfl, rfl⟩ := hrest.pure
      exact ⟨.inr rfl, rfl⟩
  · obtain ⟨rfl, rfl⟩ := h.pure
    exact ⟨.inr rfl, rfl⟩

namespace Level.Sound

variable {below : Level} {phrases : Phrases} (hsound : below.Sound phrases) (hopens : phrases.Opens)

include hsound hopens

theorem slot {slot : Slot} (h : (below.slot mode).CanGive here slot there) :
    ∃ tokens, Reads here tokens there ∧ phrases.IsSlot mode tokens slot ∧ there.Follows mode := by
  obtain ⟨begin, _, hbegin, hrest⟩ := h.bind
  obtain ⟨rfl, rfl⟩ := hbegin.offset
  obtain ⟨body, _, hbody, hrest⟩ := hrest.bind
  obtain ⟨tokens, hreads, hexpr, hfollows⟩ := hsound.expr hbody
  obtain ⟨rfl, rfl⟩ := hrest.bind_spanFrom
  have hne := (hopens.expr hexpr).ne_nil
  refine ⟨tokens, hreads, ?_, hfollows⟩
  rw [hreads.offset_eq hne, hreads.lastStop_eq hne]
  exact .intro hexpr

omit hopens in
theorem block {statements : List Statement} {span : Span}
    (h : below.block.CanGive here (statements, span) there) :
    ∃ tokens, Reads here tokens there ∧ phrases.IsBlock tokens statements ∧
      span = cover tokens := by
  obtain ⟨brace, _, hbrace, hrest⟩ := h.bind
  obtain ⟨hnext, hkind, rfl⟩ := hbrace.expect
  obtain ⟨found, _, hmany, hrest⟩ := hrest.bind
  obtain ⟨tokens, middle, hreads, hseries, hstop⟩ := Phrases.Series.of_repeats
    phrases.statement (fun h => by
      obtain ⟨close?, _, hclose, hitem⟩ := h.bind
      rcases hclose.next? with ⟨close, rfl, -⟩ | ⟨rfl, rfl, -⟩
      · cases (hitem.pure).1
      · obtain ⟨statement, _, hstatement, hitem⟩ := hitem.bind
        obtain ⟨hvalue, rfl⟩ := hitem.pure
        cases hvalue
        obtain ⟨tokens, hreads, hderived, -⟩ := hsound.statement hstatement
        exact ⟨tokens, hreads, hderived⟩) hmany.many
  obtain ⟨close?, _, hclose, hend⟩ := hstop.bind
  rcases hclose.next? with ⟨close, rfl, hcloseNext, hcloseKind, rfl⟩ | ⟨rfl, rfl, -⟩
  · obtain ⟨-, rfl⟩ := hend.pure
    obtain ⟨hvalue, rfl⟩ := hrest.bind_spanFrom
    cases hvalue
    exact ⟨_, .cons hnext (hreads.append (.single hcloseNext)), .intro hkind hseries hcloseKind,
      by simp [cover, Place.past]⟩
  · obtain ⟨_, _, -, hend⟩ := hend.bind
    cases hend.pure.1

/-! ## Chains -/

theorem arguments {arguments : List Slot} (h : below.arguments.CanGive here arguments there) :
    ∃ tokens, Reads here tokens there ∧ Phrases.Closed (phrases.IsSlot .item) tokens arguments :=
  Phrases.Closed.of_separated _ (fun hslot => by
    obtain ⟨tokens, hreads, hderived, -⟩ := hsound.slot hopens hslot
    exact ⟨tokens, hreads, hderived⟩) h

/-- A round of a chain comes to the end of the expression, applies an access or a call to the node,
or gives a name its default value, after which an item of a list may stop. -/
theorem link {round : Round Expr Expr} (h : (below.link start mode node).CanGive here round there) :
    (∃ expr tokens, round = .done expr ∧ Reads here tokens there ∧
      phrases.IsEnd mode start node tokens expr ∧ there.Follows mode) ∨
    (∃ next tokens, round = .again next ∧ Reads here tokens there ∧
      phrases.IsLink start node tokens next) ∨
    (∃ name assign tokens source, node = .name name ∧ mode.allowDefault = true ∧
      assign.kind = .assign ∧ Reads here (assign :: tokens) there ∧
      phrases.IsSlot .item tokens source ∧
      round = .again (.assign (.name name) source (.between start (stopOf tokens))) ∧
      there.Follows .item) := by
  obtain ⟨found, _, hpeek, hrest⟩ := h.bind
  obtain ⟨hfound, rfl⟩ := hpeek.peek?
  cases found with
  | none =>
      obtain ⟨rfl, rfl⟩ := hrest.pure
      exact .inl ⟨node, [], rfl, .nil here, .stop, .inl hfound⟩
  | some token =>
      -- Before what may stand behind the expression the chain is done.
      have hstop (hstops : mode.stopsBefore token.kind = true)
          (hdone : (pure (.done node) : Parser (Round Expr Expr)).CanGive here round there) :
          ∃ expr tokens, round = .done expr ∧ Reads here tokens there ∧
            phrases.IsEnd mode start node tokens expr ∧ there.Follows mode := by
        obtain ⟨rfl, rfl⟩ := hdone.pure
        exact ⟨node, [], rfl, .nil here, .stop, .inr ⟨token, hfound, hstops⟩⟩
      simp only at hrest
      split at hrest
      · next hkind => exact .inl (hstop (by rw [hkind]; rfl) hrest)
      · next hkind => exact .inl (hstop (by rw [hkind]; rfl) hrest)
      · next hkind => exact .inl (hstop (by rw [hkind]; rfl) hrest)
      · next hkind => exact .inl (hstop (by rw [hkind]; rfl) hrest)
      · next hkind =>
        split at hrest
        · next hcomma => exact .inl (hstop (by rw [hkind]; exact hcomma) hrest)
        · next hcomma =>
          -- A comma makes a sequence, and whatever follows the right side of it follows it all.
          obtain ⟨right, _, hright, hrest⟩ := hrest.bind_take.bind
          obtain ⟨tokens, hreads, hexpr, hfollows⟩ := hsound.expr hright
          obtain ⟨rfl, rfl⟩ := hrest.bind_spanFrom
          rw [hreads.lastStop_eq (hopens.expr hexpr).ne_nil]
          exact .inl ⟨_, _, rfl, .cons hfound hreads,
            .comma (Bool.eq_false_iff.2 hcomma) hkind hexpr, hfollows⟩
      · next hkind =>
        obtain ⟨_, _, hspan, hrest⟩ := hrest.bind_take.bind
        obtain ⟨rfl, rfl⟩ := hspan.spanFrom
        obtain ⟨rfl, rfl⟩ := hrest.pure
        exact .inr (.inl ⟨_, [token], rfl, .single hfound, .field hkind⟩)
      · next hkind =>
        obtain ⟨slot, _, hslot, hrest⟩ := hrest.bind_take.bind
        obtain ⟨tokens, hreads, hderived, -⟩ := hsound.slot hopens hslot
        obtain ⟨close, _, hclose, hrest⟩ := hrest.bind
        obtain ⟨hnext, hcloseKind, rfl⟩ := hclose.expect
        obtain ⟨rfl, rfl⟩ := hrest.bind_spanFrom
        exact .inr (.inl ⟨_, _, rfl, .cons hfound (hreads.append (.single hnext)),
          .index hkind hderived hcloseKind⟩)
      · next hkind =>
        obtain ⟨arguments, _, harguments, hrest⟩ := hrest.bind_take.bind
        obtain ⟨tokens, hreads, hderived⟩ := hsound.arguments hopens harguments
        obtain ⟨rfl, rfl⟩ := hrest.bind_spanFrom
        rw [hreads.lastStop_eq hderived.ne_nil]
        exact .inr (.inl ⟨_, _, rfl, .cons hfound hreads, .call hkind hderived⟩)
      · next hkind =>
        split at hrest
        · next hdefault =>
          -- Only a name takes a default value.
          split at hrest
          · obtain ⟨source, _, hslot, hrest⟩ := hrest.bind_take.bind
            obtain ⟨tokens, hreads, hderived, hfollows⟩ := hsound.slot hopens hslot
            obtain ⟨rfl, rfl⟩ := hrest.bind_spanFrom
            rw [hreads.lastStop_eq (hderived.opening hopens).ne_nil]
            exact .inr (.inr ⟨_, token, tokens, source, rfl, hdefault, hkind,
              .cons hfound hreads, hderived, rfl, hfollows⟩)
          · exact hrest.unexpected.elim
        · exact hrest.unexpected.elim
      · exact hrest.unexpected.elim

/-- A chain is a tail of the node that it starts with. -/
theorem chain {expr : Expr} (h : (below.chain start mode node).CanGive here expr there) :
    ∃ tokens, Reads here tokens there ∧ phrases.IsTail mode start node tokens expr ∧
      there.Follows mode := by
  have hloops := h.repeated
  clear h
  induction hloops with
  | done hstep =>
      rcases hsound.link hopens hstep with
        ⟨expr, tokens, hround, hreads, hend, hfollows⟩ | ⟨_, _, hround, _⟩ |
        ⟨_, _, _, _, _, _, _, _, _, hround, _⟩
      · cases hround
        exact ⟨tokens, hreads, .done hend, hfollows⟩
      · cases hround
      · cases hround
  | again hstep _ ih =>
      obtain ⟨more, hmore, htail, hfollows⟩ := ih
      rcases hsound.link hopens hstep with
        ⟨_, _, hround, _⟩ | ⟨next, tokens, hround, hreads, hlink⟩ |
        ⟨name, assign, tokens, source, rfl, hdefault, hkind, hreads, hslot, hround, hitem⟩
      · cases hround
      · cases hround
        exact ⟨tokens ++ more, hreads.append hmore, .link hlink htail, hfollows⟩
      · cases hround
        exact ⟨assign :: (tokens ++ more), hreads.append hmore,
          .fallback hdefault hkind hslot (htail.isEnd hmore hitem), hfollows⟩

/-! ## Object literals -/

/-- A key is derived together with its first token, which is taken before it. -/
theorem objectKey {key : ObjectKey} (hfirst : here.Next token)
    (h : (below.objectKey token).CanGive (here.past token) key there) :
    ∃ tokens, Reads here tokens there ∧ phrases.IsKey tokens key := by
  simp only [Level.objectKey] at h
  split at h
  · next hkind =>
    obtain ⟨slot, _, hslot, hrest⟩ := h.bind
    obtain ⟨tokens, hreads, hderived, -⟩ := hsound.slot hopens hslot
    obtain ⟨close, _, hclose, hrest⟩ := hrest.bind
    obtain ⟨hnext, hcloseKind, rfl⟩ := hclose.expect
    obtain ⟨rfl, rfl⟩ := hrest.pure
    exact ⟨_, .cons hfirst (hreads.append (.single hnext)), .computed hkind hderived hcloseKind⟩
  · next hkind =>
    obtain ⟨rfl, rfl⟩ := h.pure
    exact ⟨_, .single hfirst, .name hkind⟩
  · next hkind =>
    obtain ⟨rfl, rfl⟩ := h.pure
    exact ⟨_, .single hfirst, .string hkind⟩
  · next hkind =>
    obtain ⟨rfl, rfl⟩ := h.pure
    exact ⟨_, .single hfirst, .number hkind⟩
  · exact h.unexpected.elim

theorem objectField {field : ObjectField} (h : below.objectField.CanGive here field there) :
    ∃ tokens, Reads here tokens there ∧ phrases.IsField tokens field := by
  obtain ⟨first, _, hfirst, hrest⟩ := h.bind
  obtain ⟨hnext, rfl⟩ := hfirst.next
  obtain ⟨key, _, hkey, hrest⟩ := hrest.bind
  obtain ⟨tokens, hreads, hderived⟩ := hsound.objectKey hopens hnext hkey
  obtain ⟨value?, _, hshorthand, hrest⟩ := hrest.bind
  obtain ⟨hvalue, rfl⟩ := canGive_shorthand? hshorthand
  have hfirstOffset : startOf tokens = first.span.offset := by
    cases hderived <;> exact congrArg (·.span.offset) ((Reads.cons_iff.1 hreads).1.unique hnext)
  have hne : tokens ≠ [] := by cases hderived <;> simp
  rcases hvalue with ⟨name, rfl, rfl⟩ | rfl
  · obtain ⟨rfl, rfl⟩ := hrest.bind_spanFrom
    rw [hreads.lastStop_eq hne, ← hfirstOffset]
    cases hderived with
    | name hkind => exact ⟨_, hreads, .shorthand hkind⟩
  · obtain ⟨colon, _, hcolon, hrest⟩ := hrest.bind
    obtain ⟨hcolonNext, hcolonKind, rfl⟩ := hcolon.expect
    obtain ⟨value, _, hslot, hrest⟩ := hrest.bind
    obtain ⟨more, hmore, hslotDerived, -⟩ := hsound.slot hopens hslot
    obtain ⟨rfl, rfl⟩ := hrest.bind_spanFrom
    have hall := hreads.append (.cons hcolonNext hmore)
    rw [hall.lastStop_eq (by simp), ← hfirstOffset, ← startOf_append (colon :: more) hne]
    exact ⟨_, hall, .entry hderived hcolonKind hslotDerived⟩

/-- A field and the comma behind it, or the last field before the closing bracket, or that
bracket. -/
theorem objectField? {field? : Option ObjectField}
    (h : below.objectField?.CanGive here field? there) :
    (∃ close, field? = none ∧ here.Next close ∧ close.kind = .closeCurly ∧
      there = here.past close) ∨
    (∃ field tokens middle, field? = some field ∧
      (∀ close, here.Next close → close.kind ≠ .closeCurly) ∧
      Reads here tokens middle ∧ phrases.IsField tokens field ∧
      ((∃ comma, middle.Next comma ∧ comma.kind = .comma ∧ there = middle.past comma) ∨
        (∃ close, middle.Next close ∧ close.kind = .closeCurly ∧ there = middle))) := by
  obtain ⟨close?, _, hclose, hrest⟩ := h.bind
  rcases hclose.next? with ⟨close, rfl, hnext, hkind, rfl⟩ | ⟨rfl, rfl, hother⟩
  · obtain ⟨rfl, rfl⟩ := hrest.pure
    exact .inl ⟨close, rfl, hnext, hkind, rfl⟩
  · have hopen (close : Token) (hclose : here.Next close) : close.kind ≠ .closeCurly :=
      hclose.of_ended_or hother
    obtain ⟨field, middle, hfield, hrest⟩ := hrest.bind
    obtain ⟨tokens, hreads, hderived⟩ := hsound.objectField hopens hfield
    obtain ⟨token, _, htoken, hrest⟩ := hrest.bind
    obtain ⟨hnext, rfl⟩ := htoken.peek
    -- A comma behind the field is taken with it, a closing bracket is left to the next round.
    split at hrest
    · next hkind =>
      obtain ⟨rfl, rfl⟩ := hrest.bind_take.pure
      exact .inr ⟨field, tokens, _, rfl, hopen, hreads, hderived, .inl ⟨token, hnext, hkind, rfl⟩⟩
    · next hkind =>
      obtain ⟨rfl, rfl⟩ := hrest.pure
      exact .inr ⟨field, tokens, _, rfl, hopen, hreads, hderived, .inr ⟨token, hnext, hkind, rfl⟩⟩
    · obtain ⟨_, _, hfail, _⟩ := hrest.bind
      exact hfail.unexpected.elim

theorem fields {fields : List ObjectField}
    (h : (many below.objectField?).CanGive here fields there) :
    ∃ tokens middle close, Reads here tokens middle ∧ phrases.IsFields tokens fields ∧
      middle.Next close ∧ close.kind = .closeCurly ∧ there = middle.past close := by
  have hrepeats := h.many
  clear h
  induction hrepeats with
  | @stop here there hstop =>
      rcases hsound.objectField? hopens hstop with
        ⟨close, -, hnext, hkind, rfl⟩ | ⟨_, _, _, hsome, _⟩
      · exact ⟨[], here, close, .nil here, .nil, hnext, hkind, rfl⟩
      · cases hsome
  | more hitem hrest ih =>
      rcases hsound.objectField? hopens hitem with
        ⟨_, hnone, _⟩ | ⟨field, tokens, middle, hsome, -, hreads, hderived, hbehind⟩
      · cases hnone
      · cases hsome
        rcases hbehind with ⟨comma, hcomma, hkind, rfl⟩ | ⟨close, hclose, hkind, rfl⟩
        · obtain ⟨more, last, close, hmore, hfields, hclose⟩ := ih
          exact ⟨_, last, close, hreads.append (.cons hcomma hmore), .more hderived hkind hfields,
            hclose⟩
        · -- The closing bracket is next, so the loop stops there.
          cases hrest with
          | stop hstop =>
              rcases hsound.objectField? hopens hstop with
                ⟨found, -, hfound, hfoundKind, rfl⟩ | ⟨_, _, _, hsome, _⟩
              · exact ⟨tokens, _, found, hreads, .last hderived, hfound, hfoundKind, rfl⟩
              · cases hsome
          | more hagain _ =>
              rcases hsound.objectField? hopens hagain with ⟨_, hnone, _⟩ | ⟨_, _, _, -, hopen, _⟩
              · cases hnone
              · exact absurd hkind (hopen close hclose)

/-- An object literal, or a pattern with the object that it takes apart. -/
theorem object {expr : Expr} (hbrace : here.Next token) (hkind : token.kind = .openCurly)
    (h : (below.object token).CanGive here expr there) :
    (∃ tokens, Reads here tokens there ∧ phrases.IsObject tokens expr) ∨
    (∃ tokens literal target assign more source, Reads here (tokens ++ assign :: more) there ∧
      phrases.IsObject tokens literal ∧ literal.toBinding = .ok target ∧ assign.kind = .assign ∧
      phrases.IsSlot .item more source ∧ there.Follows .item ∧
      expr = .assign target source (.between (startOf tokens) (stopOf more))) := by
  obtain ⟨fields, _, hfields, hrest⟩ := h.bind_take.bind
  obtain ⟨tokens, middle, close, hreads, hderived, hclose, hcloseKind, rfl⟩ :=
    hsound.fields hopens hfields
  obtain ⟨_, _, hspan, hrest⟩ := hrest.bind
  obtain ⟨rfl, rfl⟩ := hspan.spanFrom
  have hliteral := Reads.cons hbrace (hreads.append (.single hclose))
  have hobject := Phrases.IsObject.intro hkind hderived hcloseKind
  rw [hliteral.lastStop_eq (List.cons_ne_nil _ _)] at hrest
  obtain ⟨assign?, _, hassign, hrest⟩ := hrest.bind
  rcases hassign.next? with ⟨assign, rfl, hassignNext, hassignKind, rfl⟩ | ⟨rfl, rfl, -⟩
  · obtain ⟨target, _, hrebound, hrest⟩ := hrest.bind
    obtain ⟨htarget, rfl⟩ := canGive_rebound hrebound
    obtain ⟨source, _, hslot, hrest⟩ := hrest.bind
    obtain ⟨more, hmore, hsource, hfollows⟩ := hsound.slot hopens hslot
    obtain ⟨rfl, rfl⟩ := hrest.bind_spanFrom
    rw [hmore.lastStop_eq (hsource.opening hopens).ne_nil]
    exact .inr ⟨_, _, target, assign, more, source, hliteral.append (.cons hassignNext hmore),
      hobject, htarget, hassignKind, hsource, hfollows, rfl⟩
  · obtain ⟨rfl, rfl⟩ := hrest.pure
    exact .inl ⟨_, hliteral, hobject⟩

/-! ## Groups and arrow functions -/

/-- What follows the parameters of an arrow function makes an expression with them. -/
theorem arrowFunction {parameters : Parameters} {tokens : List Token} {expr : Expr}
    (hparameters : phrases.IsParameters tokens parameters) (harrow : here.Next token)
    (hkind : token.kind = .arrow)
    (h : (below.arrowFunction parameters token mode).CanGive here expr there) :
    ∃ more, Reads here more there ∧ phrases.IsExpression mode (tokens ++ more) expr ∧
      there.Follows mode := by
  obtain ⟨found, _, hpeek, hrest⟩ := h.bind_take.bind
  obtain ⟨hfound, rfl⟩ := hpeek.peek?
  split at hrest
  · obtain ⟨⟨statements, span⟩, _, hblock, hrest⟩ := hrest.bind
    obtain ⟨more, hmore, hderived, rfl⟩ := hsound.block hblock
    have hne : more ≠ [] := by cases hderived; simp
    obtain ⟨_, _, hspan, hrest⟩ := hrest.bind
    obtain ⟨rfl, rfl⟩ := hspan.spanFrom
    rw [hparameters.offset_eq, hmore.lastStop_eq hne] at hrest
    obtain ⟨rest, hreads, htail, hfollows⟩ := hsound.chain hopens hrest
    exact ⟨_, .cons harrow (hmore.append hreads), .arrowBlock hparameters hkind hderived htail,
      hfollows⟩
  · next hother =>
    obtain ⟨body, _, hslot, hrest⟩ := hrest.bind
    obtain ⟨more, hmore, hderived, hfollows⟩ := hsound.slot hopens hslot
    obtain ⟨rfl, rfl⟩ := hrest.bind_spanFrom
    have hopening := hderived.opening hopens
    rw [hparameters.offset_eq, hmore.lastStop_eq hopening.ne_nil]
    refine ⟨_, .cons harrow hmore, .arrow hparameters hkind ?_ hderived, hfollows⟩
    -- The body starts with the token that was found, and that is no curly bracket.
    obtain ⟨⟨kind, text, span⟩, rest, rfl, -⟩ := hopening
    intro hcurly
    cases Option.some.inj hcurly
    exact hother text span (Except.ok.inj (hfound.symm.trans (Reads.cons_iff.1 hmore).1))

theorem group {expr : Expr} (hbracket : here.Next token) (hkind : token.kind = .openRound)
    (h : (below.group token mode).CanGive here expr there) :
    ∃ tokens, Reads here tokens there ∧ phrases.IsExpression mode tokens expr ∧
      there.Follows mode := by
  obtain ⟨close?, _, hclose, hrest⟩ := h.bind_take.bind
  rcases hclose.next? with ⟨close, rfl, hcloseNext, hcloseKind, rfl⟩ | ⟨rfl, rfl, -⟩
  · have hgroup : Reads here [token, close] _ := .cons hbracket (.single hcloseNext)
    obtain ⟨arrow, _, harrow, hrest⟩ := hrest.bind
    obtain ⟨harrowNext, rfl⟩ := harrow.peek
    split at hrest
    · next harrowKind =>
      obtain ⟨more, hmore, hderived, hfollows⟩ :=
        hsound.arrowFunction hopens (.empty hkind hcloseKind) harrowNext harrowKind hrest
      exact ⟨_, hgroup.append hmore, hderived, hfollows⟩
    · exact hrest.unexpected.elim
  · obtain ⟨content, _, hcontent, hrest⟩ := hrest.bind
    obtain ⟨tokens, hreads, hexpr, -⟩ := hsound.expr hcontent
    obtain ⟨close, _, hclose, hrest⟩ := hrest.bind
    obtain ⟨hcloseNext, hcloseKind, rfl⟩ := hclose.expect
    have hgroup := Reads.cons hbracket (hreads.append (.single hcloseNext))
    obtain ⟨found, _, hpeek, hrest⟩ := hrest.bind
    obtain ⟨hfound, rfl⟩ := hpeek.peek?
    -- Only an arrow makes the content of the group parameters.
    split at hrest
    · obtain ⟨parameters, _, hrebound, hrest⟩ := hrest.bind
      obtain ⟨hparameters, rfl⟩ := canGive_rebound hrebound
      have hderived : phrases.IsParameters (token :: (tokens ++ [close])) parameters :=
        .group hkind hexpr hcloseKind (by simpa [cover] using hparameters)
      obtain ⟨more, hmore, hderived, hfollows⟩ :=
        hsound.arrowFunction hopens hderived hfound rfl hrest
      exact ⟨_, hgroup.append hmore, hderived, hfollows⟩
    · obtain ⟨more, hmore, htail, hfollows⟩ := hsound.chain hopens hrest
      exact ⟨_, hgroup.append hmore, .chain (.group hkind hexpr hcloseKind) htail, hfollows⟩

/-! ## Levels -/

theorem expression {expr : Expr} (h : (below.expression mode).CanGive here expr there) :
    ∃ tokens, Reads here tokens there ∧ phrases.IsExpression mode tokens expr ∧
      there.Follows mode := by
  obtain ⟨token, _, htoken, hrest⟩ := h.bind
  obtain ⟨hnext, rfl⟩ := htoken.peek
  have hsingle {node : Expr} (hprimary : phrases.IsPrimary [token] node)
      (hchain : (below.chain token.span.offset mode node).CanGive (here.past token) expr there) :
      ∃ tokens, Reads here tokens there ∧ phrases.IsExpression mode tokens expr ∧
        there.Follows mode := by
    obtain ⟨more, hmore, htail, hfollows⟩ := hsound.chain hopens hchain
    exact ⟨_, .cons hnext hmore, .chain hprimary htail, hfollows⟩
  simp only at hrest
  split at hrest
  · next hkind => exact hsingle (.string hkind) hrest.bind_take
  · next hkind => exact hsingle (.number hkind) hrest.bind_take
  · next hkind => exact hsingle (.name hkind) hrest.bind_take
  · next hkind =>
    obtain ⟨node, _, hobject, hrest⟩ := hrest.bind
    rcases hsound.object hopens hnext hkind hobject with
      ⟨tokens, hreads, hderived⟩ |
      ⟨tokens, literal, target, assign, more, source, hreads, hderived, htarget, hassign, hsource,
        hitem, rfl⟩
    · obtain ⟨rest, hrest, htail, hfollows⟩ := hsound.chain hopens hrest
      have hoffset : startOf tokens = token.span.offset := by
        rw [← hreads.offset_eq hderived.opening.ne_nil, hnext.offset_eq]
      exact ⟨_, hreads.append hrest, .chain (.object hderived) (hoffset ▸ htail), hfollows⟩
    -- What a pattern unpacks stops where an item of a list may, so its tail is an end.
    · obtain ⟨rest, hrest, htail, hfollows⟩ := hsound.chain hopens hrest
      have hoffset : startOf tokens = token.span.offset := by
        rw [← startOf_append _ hderived.opening.ne_nil, ← hreads.offset_eq (by simp),
          hnext.offset_eq]
      have hend := htail.isEnd hrest hitem
      rw [← hoffset] at hend
      exact ⟨_, by simpa using hreads.append hrest,
        .unpacking hderived htarget hassign hsource hend, hfollows⟩
  · next hkind => exact hsound.group hopens hnext hkind hrest
  · exact hrest.unexpected.elim

/-! ## Statements -/

omit hsound hopens in
theorem declaredName {expectation : Expectation} {name : Name}
    (h : (Level.declaredName expectation).CanGive here name there) :
    ∃ tokens, Reads here tokens there ∧ Phrases.IsName tokens name := by
  obtain ⟨token, _, htoken, hrest⟩ := h.bind
  obtain ⟨hnext, rfl⟩ := htoken.next
  split at hrest
  · next hkind =>
    split at hrest
    · exact hrest.fail.elim
    · next hreserved =>
      obtain ⟨rfl, rfl⟩ := hrest.pure
      exact ⟨[token], .single hnext, .intro hkind (Bool.eq_false_iff.2 hreserved)⟩
  · exact hrest.unexpected.elim

theorem initializer? {modifier : Modifier} {value? : Option Slot}
    (h : (below.initializer? modifier).CanGive here value? there) :
    (∃ semicolon, value? = none ∧ modifier ≠ .asConst ∧ semicolon.kind = .semicolon ∧
      Reads here [semicolon] there) ∨
    (∃ value assign tokens semicolon, value? = some value ∧ assign.kind = .assign ∧
      phrases.IsSlot .plain tokens value ∧ semicolon.kind = .semicolon ∧
      Reads here (assign :: (tokens ++ [semicolon])) there) := by
  obtain ⟨token, _, htoken, hrest⟩ := h.bind
  obtain ⟨hnext, rfl⟩ := htoken.next
  split at hrest
  · next hkind =>
    obtain ⟨value, _, hslot, hrest⟩ := hrest.bind
    obtain ⟨tokens, hreads, hderived, -⟩ := hsound.slot hopens hslot
    obtain ⟨semicolon, _, hsemicolon, hrest⟩ := hrest.bind
    obtain ⟨hsemicolonNext, hsemicolonKind, rfl⟩ := hsemicolon.expect
    obtain ⟨rfl, rfl⟩ := hrest.pure
    exact .inr ⟨value, token, tokens, semicolon, rfl, hkind, hderived, hsemicolonKind,
      .cons hnext (hreads.append (.single hsemicolonNext))⟩
  · split at hrest
    · exact hrest.unexpected.elim
    · next hmodifier =>
      split at hrest
      · next hkind =>
        obtain ⟨rfl, rfl⟩ := hrest.pure
        exact .inl ⟨token, rfl, hmodifier, hkind, .single hnext⟩
      · exact hrest.unexpected.elim

theorem variableDeclaration {modifier : Modifier} {statement : Statement} (hnext : here.Next token)
    (hkind : token.kind = .word) (hmodifier : Modifier.ofWord? token.text = some modifier)
    (h : (below.variableDeclaration token modifier).CanGive here statement there) :
    ∃ tokens, Reads here tokens there ∧ phrases.IsBody tokens statement := by
  obtain ⟨name, _, hname, hrest⟩ := h.bind_take.bind
  obtain ⟨tokens, hreads, hnamed⟩ := declaredName hname
  obtain ⟨value?, _, hvalue, hrest⟩ := hrest.bind
  obtain ⟨_, _, hnote, hrest⟩ := hrest.bind
  obtain rfl := hnote.note
  obtain ⟨rfl, rfl⟩ := hrest.bind_spanFrom
  rcases hsound.initializer? hopens hvalue with
    ⟨semicolon, rfl, hconst, hsemicolon, hend⟩ |
    ⟨value, assign, more, semicolon, rfl, hassign, hderived, hsemicolon, hend⟩
  · have hall := Reads.cons hnext (hreads.append hend)
    rw [hall.lastStop_eq (List.cons_ne_nil _ _)]
    exact ⟨_, hall, .declaration hkind hmodifier hconst hnamed hsemicolon⟩
  · have hall := Reads.cons hnext (hreads.append hend)
    rw [hall.lastStop_eq (List.cons_ne_nil _ _)]
    exact ⟨_, hall, .initialized hkind hmodifier hnamed hassign hderived hsemicolon⟩

omit hopens in
theorem functionDeclaration {statement : Statement} (hnext : here.Next token)
    (hkind : token.kind = .word) (htext : token.text = Spelling.functionWord)
    (h : (below.functionDeclaration token).CanGive here statement there) :
    ∃ tokens, Reads here tokens there ∧ phrases.IsBody tokens statement := by
  obtain ⟨name, _, hname, hrest⟩ := h.bind_take.bind
  obtain ⟨tokens, hreads, hnamed⟩ := declaredName hname
  obtain ⟨bracket, _, hbracket, hrest⟩ := hrest.bind
  obtain ⟨hbracketNext, hbracketKind, rfl⟩ := hbracket.expect
  obtain ⟨parameters, _, hparameters, hrest⟩ := hrest.bind
  obtain ⟨more, hmore, hclosed⟩ :=
    Phrases.Closed.of_separated Phrases.IsName declaredName hparameters
  obtain ⟨⟨body, span⟩, _, hblock, hrest⟩ := hrest.bind
  obtain ⟨block, hblockReads, hderived, -⟩ := hsound.block hblock
  obtain ⟨_, _, hnote, hrest⟩ := hrest.bind
  obtain rfl := hnote.note
  obtain ⟨rfl, rfl⟩ := hrest.bind_spanFrom
  have hall := Reads.cons hnext (hreads.append (.cons hbracketNext (hmore.append hblockReads)))
  rw [hall.lastStop_eq (List.cons_ne_nil _ _)]
  exact ⟨_, hall, .function hkind htext hnamed hbracketKind hclosed hderived⟩

/-- An expression can stand as a statement when it does not start with a reserved word. -/
theorem expressionStatement {statement : Statement} (hnext : here.Next token)
    (hreserved : token.kind = .word → Spelling.isReserved token.text = false)
    (h : below.expressionStatement.CanGive here statement there) :
    ∃ tokens, Reads here tokens there ∧ phrases.IsBody tokens statement := by
  obtain ⟨slot, _, hslot, hrest⟩ := h.bind
  obtain ⟨tokens, hreads, hderived, -⟩ := hsound.slot hopens hslot
  obtain ⟨semicolon, _, hsemicolon, hrest⟩ := hrest.bind
  obtain ⟨hsemicolonNext, hsemicolonKind, rfl⟩ := hsemicolon.expect
  obtain ⟨rfl, rfl⟩ := hrest.pure
  refine ⟨_, hreads.append (.single hsemicolonNext), .expression ?_ hderived hsemicolonKind⟩
  obtain ⟨first, rest, rfl, -⟩ := hderived.opening hopens
  obtain rfl := hnext.unique (Reads.cons_iff.1 hreads).1
  simpa [Phrases.startsReserved] using hreserved

theorem statementBody {statement : Statement}
    (h : below.statementBody.CanGive here statement there) :
    ∃ tokens, Reads here tokens there ∧ phrases.IsBody tokens statement := by
  obtain ⟨token, _, htoken, hrest⟩ := h.bind
  obtain ⟨hnext, rfl⟩ := htoken.peek
  split at hrest
  · next hkind =>
    split at hrest
    · next hmodifier => exact hsound.variableDeclaration hopens hnext hkind hmodifier hrest
    · next hmodifier =>
      split at hrest
      · next htext => exact hsound.functionDeclaration hnext hkind htext hrest
      · next htext =>
        split at hrest
        · exact hrest.fail.elim
        · next hunsupported =>
          exact hsound.expressionStatement hopens hnext
            (fun _ => Spelling.isReserved_eq_false hmodifier htext hunsupported) hrest
  · next hkind =>
    exact hsound.expressionStatement hopens hnext (fun hword => absurd hword hkind) hrest

end Level.Sound

/-- Redundant semicolons are taken until none is left. -/
theorem reads_semicolons {semicolons : List Token}
    (h : (many (next? .semicolon)).CanGive here semicolons there) :
    Reads here semicolons there ∧ (∀ token ∈ semicolons, token.kind = .semicolon) ∧
      there.FollowsStatement := by
  have hrepeats := h.many
  clear h
  induction hrepeats with
  | stop hstop =>
      rcases hstop.next? with ⟨_, hsome, _⟩ | ⟨-, rfl, hother⟩
      · cases hsome
      · exact ⟨.nil _, by simp, hother⟩
  | more hitem _ ih =>
      rcases hitem.next? with ⟨token, hsome, hnext, hkind, rfl⟩ | ⟨hnone, _⟩
      · cases hsome
        exact ⟨.cons hnext ih.1, List.forall_mem_cons.2 ⟨hkind, ih.2.1⟩, ih.2.2⟩
      · cases hnone

/-- What a level above a sound one can give is derived. -/
theorem Level.Sound.above {below : Level} {phrases : Phrases} (hsound : below.Sound phrases)
    (hopens : phrases.Opens) : below.above.Sound phrases.above where
  expr h := hsound.expression hopens h.construct.within
  statement h := by
    obtain ⟨_, _, hstart, hrest⟩ := h.bind
    obtain ⟨rfl, rfl⟩ := hstart.offset
    obtain ⟨statement, _, hbody, hrest⟩ := hrest.bind
    obtain ⟨tokens, hreads, hderived⟩ :=
      hsound.statementBody hopens hbody.inStatement.construct.within
    obtain ⟨semicolons, _, hsemicolons, hrest⟩ := hrest.bind
    obtain ⟨hmore, hkinds, hfollows⟩ := reads_semicolons hsemicolons
    obtain ⟨rfl, rfl⟩ := hrest.pure
    exact ⟨_, hreads.append hmore, .intro hderived hkinds, hfollows⟩

/-- What a level can give is derived with as many statements and expressions on any path. -/
theorem sound_ofHeight (height : Nat) : (Level.ofHeight height).Sound (.ofHeight height) := by
  induction height with
  | zero =>
      refine ⟨fun h => h.construct.tooDeep.elim, fun h => ?_⟩
      obtain ⟨_, _, -, hrest⟩ := h.bind
      obtain ⟨_, _, hbody, -⟩ := hrest.bind
      exact hbody.inStatement.construct.tooDeep.elim
  | succ height ih => exact ih.above (Phrases.opens_ofHeight height)

end Scriptlet
