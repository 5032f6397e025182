import Scriptlet.Proofs.Soundness

/-!
# What is derived is given

Where the tokens of a derivation stand and what behind them may follow, every run of the parser
gives what the derivation builds and stops behind the tokens: `Level.Complete` says so of a level,
and `complete_ofHeight` holds it of every level. The productions of the grammar are taken one by
one; the first token behind a part tells the parser what the derivation goes on with.
-/

namespace Scriptlet

open Scriptlet.Parser

/-- Where its tokens stand and what behind them may follow, what is derived is given. -/
structure Level.Complete (level : Level) (phrases : Phrases) : Prop where
  expr {mode tokens expr here there} :
    phrases.expr mode tokens expr → Reads here tokens there → there.Follows mode →
      (level.expr mode).Gives here expr there
  statement {tokens statement here there} :
    phrases.statement tokens statement → Reads here tokens there → there.FollowsStatement →
      level.statement.Gives here statement there

variable {here middle there : Place} {mode : Mode} {start : Nat} {node expr : Expr} {token : Token}
  {tokens : List Token}

/-! ## What is next -/

/-- What is read first starts where it is read. -/
theorem Phrases.Opening.next (h : Phrases.Opening tokens) (hreads : Reads here tokens there) :
    ∃ token, here.Next token ∧ Phrases.opensPhrase token.kind = true := by
  obtain ⟨token, more, rfl, hkind⟩ := h
  exact ⟨token, (Reads.cons_iff.1 hreads).1, hkind⟩

/-- An object literal starts with its bracket. -/
theorem Phrases.IsObject.next {below : Phrases} {literal : Expr}
    (h : below.IsObject tokens literal) (hreads : Reads here tokens there) :
    ∃ brace, here.Next brace ∧ brace.kind = .openCurly ∧ startOf tokens = brace.span.offset := by
  cases h with
  | intro hkind => exact ⟨_, (Reads.cons_iff.1 hreads).1, hkind, rfl⟩

/-- Parameters start with their bracket. -/
theorem Phrases.IsParameters.next {below : Phrases} {parameters : Parameters}
    (h : below.IsParameters tokens parameters) (hreads : Reads here tokens there) :
    ∃ bracket, here.Next bracket ∧ bracket.kind = .openRound := by
  cases h with
  | empty hkind | group hkind => exact ⟨_, (Reads.cons_iff.1 hreads).1, hkind⟩

/-- A statement may stop where another one starts. -/
theorem Phrases.Opening.followsStatement (h : Phrases.Opening tokens)
    (hreads : Reads here tokens there) : here.FollowsStatement := by
  obtain ⟨token, hnext, hkind⟩ := h.next hreads
  refine .inr ⟨token, hnext, ?_⟩
  intro hsemicolon
  simp [hsemicolon, opensPhrase] at hkind

/-- A statement may stop where statements start that a statement may stop behind. -/
theorem Phrases.Series.followsStatement {phrases : Phrases} {statements : List Statement}
    (hopens : phrases.Opens) (h : Phrases.Series phrases.statement tokens statements)
    (hreads : Reads here tokens there) (hfollows : there.FollowsStatement) :
    here.FollowsStatement := by
  cases h with
  | nil =>
      obtain rfl := Reads.nil_iff.1 hreads
      exact hfollows
  | cons hstatement _ =>
      obtain ⟨middle, hfirst, -⟩ := Reads.append_iff.1 hreads
      exact (hopens.statement hstatement).followsStatement hfirst

/-- An expression of every mode that stops at commas may stop before a comma. -/
theorem Place.follows_item (h : here.Next token)
    (hkind : token.kind = .comma ∨ token.kind = .closeRound) : here.Follows .item := by
  refine .inr ⟨token, h, ?_⟩
  rcases hkind with hkind | hkind <;> rw [hkind] <;> rfl

/-- Before a closing bracket or a semicolon every expression may stop. -/
theorem Place.follows_of_next (h : here.Next token)
    (hkind : token.kind.isClosing = true ∨ token.kind = .semicolon) : here.Follows mode := by
  refine .inr ⟨token, h, ?_⟩
  cases hfound : token.kind <;> simp_all [Kind.isClosing, Mode.stopsBefore]

/-- The kinds of the tokens that may follow a node of a chain. -/
def Phrases.continues (node : Expr) : Kind → Prop
  | .semicolon | .closeRound | .closeSquare | .closeCurly | .comma | .field | .openSquare
  | .openRound => True
  | .assign => ∃ name, node = .name name
  | _ => False

/-- A tail or what stands behind it tells how a chain goes on. -/
theorem Phrases.IsTail.continues {below : Phrases} (h : below.IsTail mode start node tokens expr)
    (hreads : Reads here tokens there) (hfollows : there.Follows mode) :
    here.Ended ∨ ∃ token, here.Next token ∧ Phrases.continues node token.kind := by
  cases h with
  | done hend =>
      cases hend with
      | stop =>
          obtain rfl := Reads.nil_iff.1 hreads
          refine hfollows.imp id ?_
          rintro ⟨token, hnext, hstops⟩
          refine ⟨token, hnext, ?_⟩
          cases hkind : token.kind <;> simp_all [Mode.stopsBefore, Phrases.continues]
      | comma _ hkind _ =>
          exact .inr ⟨_, (Reads.cons_iff.1 hreads).1, by rw [hkind]; trivial⟩
  | link hlink _ =>
      obtain ⟨middle, hfirst, -⟩ := Reads.append_iff.1 hreads
      cases hlink with
      | field hkind | index hkind | call hkind =>
          exact .inr ⟨_, (Reads.cons_iff.1 hfirst).1, by rw [hkind]; trivial⟩
  | @fallback name _ _ _ _ _ _ hkind _ _ =>
      exact .inr ⟨_, (Reads.cons_iff.1 hreads).1, by rw [hkind]; exact ⟨name, rfl⟩⟩

/-- An item of a list may stop where the end of an expression begins. -/
theorem Phrases.IsEnd.follows_item {below : Phrases} (h : below.IsEnd mode start node tokens expr)
    (hreads : Reads here tokens there) (hfollows : there.Follows mode) : here.Follows .item := by
  cases h with
  | stop =>
      obtain rfl := Reads.nil_iff.1 hreads
      refine hfollows.imp id ?_
      rintro ⟨token, hnext, hstops⟩
      refine ⟨token, hnext, ?_⟩
      cases hkind : token.kind <;> simp_all [Mode.stopsBefore, Mode.item]
  | comma _ hkind _ => exact Place.follows_item (Reads.cons_iff.1 hreads).1 (.inl hkind)

/-- A word that is not reserved starts neither a declaration nor a statement that is left out. -/
theorem Spelling.of_isReserved_eq_false {word : String} (h : isReserved word = false) :
    Modifier.ofWord? word = none ∧ word ≠ functionWord ∧
      unsupportedWords.contains word = false := by
  simp only [isReserved, reservedWords, variableWords, List.contains_eq_mem,
    decide_eq_false_iff_not, List.mem_append, List.mem_cons, List.not_mem_nil, or_false,
    not_or] at h
  obtain ⟨⟨hvar, hlet, hconst⟩, hfunction, hunsupported⟩ := h
  refine ⟨?_, hfunction, ?_⟩
  · unfold Modifier.ofWord?
    split
    · exact absurd rfl hvar
    · exact absurd rfl hlet
    · exact absurd rfl hconst
    · rfl
  · simpa using hunsupported

/-! ## Lists -/

/-- Statements that are derived are given one after another, up to where there is none. -/
theorem repeats_of_series {phrases : Phrases} (hopens : phrases.Opens)
    {item? : Parser (Option Statement)} {statements : List Statement}
    (hitem : ∀ {here tokens statement there}, phrases.statement tokens statement →
      Reads here tokens there → there.FollowsStatement → item?.Gives here (some statement) there)
    (hstop : item?.Gives middle none there) (hfollows : middle.FollowsStatement)
    (h : Phrases.Series phrases.statement tokens statements) (hreads : Reads here tokens middle) :
    Repeats (fun here item there => item?.Gives here item there ∧
        (item.isSome → there.cursor.rest.length < here.cursor.rest.length))
      here statements there := by
  induction h generalizing here with
  | nil =>
      obtain rfl := Reads.nil_iff.1 hreads
      exact .stop ⟨hstop, by simp⟩
  | cons hstatement hseries ih =>
      obtain ⟨next, hfirst, hrest⟩ := Reads.append_iff.1 hreads
      have hnext := hseries.followsStatement hopens hrest hfollows
      exact .more ⟨hitem hstatement hfirst hnext,
        fun _ => hfirst.length_lt (hopens.statement hstatement).ne_nil⟩ (ih hrest)

/-- A bracketed list that is derived is given. -/
theorem separated_of_closed {α : Type} {parser : Parser α} {item : List Token → α → Prop}
    {values : List α} (hopening : ∀ {tokens value}, item tokens value → Phrases.Opening tokens)
    (hitem : ∀ {here tokens value there}, item tokens value → Reads here tokens there →
      there.Follows .item → parser.Gives here value there)
    (h : Phrases.Closed item tokens values) (hreads : Reads here tokens there)
    (separator : Expectation) : (separated parser separator).Gives here values there := by
  cases h with
  | empty hkind =>
      obtain ⟨hnext, rfl⟩ := Reads.singleton_iff.1 hreads
      exact .separated_nil hnext hkind separator
  | @filled tokens values close hlisted hkind =>
      obtain ⟨middle, hitems, hcloseNext, rfl⟩ := Reads.append_singleton_iff.1 hreads
      have hfirst : Phrases.Opening tokens := by
        cases hlisted with
        | last hvalue => exact hopening hvalue
        | more hvalue => exact (hopening hvalue).append _
      obtain ⟨first, hnext, hopens⟩ := hfirst.next hitems
      have hround : first.kind ≠ .closeRound := by
        intro hround
        simp [hround, Phrases.opensPhrase] at hopens
      refine .separated hnext hround ?_ separator
      clear hfirst hnext hopens hreads
      -- Every item stops before a comma or the closing bracket.
      induction hlisted generalizing here with
      | last hvalue =>
          exact .last ⟨hitem hvalue hitems (Place.follows_item hcloseNext (.inr hkind)),
            hitems.length_le⟩ hcloseNext hkind
      | more hvalue hcomma _ ih =>
          obtain ⟨next, hvalueReads, hrest⟩ := Reads.append_iff.1 hitems
          obtain ⟨hcommaNext, hrest⟩ := Reads.cons_iff.1 hrest
          exact .more ⟨hitem hvalue hvalueReads (Place.follows_item hcommaNext (.inl hcomma)),
            hvalueReads.length_le⟩ hcommaNext hcomma (ih hrest)

/-! ## Operations that take no token -/

theorem gives_rebound {α : Type} {result : Except Violation α} {value : α}
    (h : result = .ok value) : (Level.rebound result).Gives here value here := by
  rw [h]
  exact .pure value

/-- A name before a comma or the closing bracket is its own value. -/
theorem gives_shorthand?_some {name : Name} (hnext : here.Next token)
    (hkind : token.kind = .comma ∨ token.kind = .closeCurly) :
    (Level.shorthand? (.name name)).Gives here (some (.bare (.name name))) here := by
  refine .bind (.peek hnext) ?_
  rcases hkind with hkind | hkind <;>
    · simp only [hkind]
      exact .pure _

/-- A key before a colon has no value of its own. -/
theorem gives_shorthand?_none {key : ObjectKey} (hnext : here.Next token)
    (hkind : token.kind = .colon) : (Level.shorthand? key).Gives here none here := by
  cases key with
  | name name =>
      refine .bind (.peek hnext) ?_
      simp only [hkind]
      exact .pure none
  | string | number | computed => exact .pure none

/-- A chain is done where an expression of its mode may stop, and leaves the state as it is. -/
theorem Level.link_run_of_follows {below : Level} {state : ParseState}
    (h : state.place.Follows mode) :
    below.link start mode node state = .ok (.done node) state := by
  rw [link, bind_run, peek?_run]
  rcases h with hended | ⟨token, hnext, hstops⟩
  · rw [show state.cursor.peek = .ok none from hended]
    rfl
  · rw [show state.cursor.peek = .ok (some token) from hnext]
    rcases mode.stopsBefore_iff.1 hstops with hkind | hkind | hkind | hkind | ⟨hkind, hcomma⟩
    case inr.inr.inr.inr =>
      simp only [hkind, hcomma, if_true]
      rfl
    all_goals
      simp only [hkind]
      rfl

namespace Level.Complete

variable {below : Level} {phrases : Phrases} (hcomplete : below.Complete phrases)
  (hopens : phrases.Opens)

include hcomplete hopens

theorem slot {slot : Slot} (h : phrases.IsSlot mode tokens slot) (hreads : Reads here tokens there)
    (hfollows : there.Follows mode) : (below.slot mode).Gives here slot there := by
  cases h with
  | intro hexpr =>
      have hne := (hopens.expr hexpr).ne_nil
      refine .bind .offset (.bind (hcomplete.expr hexpr hreads hfollows) (.bind_spanFrom ?_ _))
      rw [hreads.offset_eq hne, hreads.lastStop_eq hne]
      rfl

theorem block {statements : List Statement} (h : phrases.IsBlock tokens statements)
    (hreads : Reads here tokens there) :
    below.block.Gives here (statements, cover tokens) there := by
  cases h with
  | @intro brace inner _ close hbrace hseries hclose =>
      obtain ⟨hbraceNext, hrest⟩ := Reads.cons_iff.1 hreads
      obtain ⟨middle, hinner, hcloseNext, rfl⟩ := Reads.append_singleton_iff.1 hrest
      refine .bind (.expect hbraceNext hbrace _) (.bind (.many
        (repeats_of_series hopens ?_ (.bind (.next?_some hcloseNext hclose) (.pure none)) ?_ hseries
          hinner)) (.bind_spanFrom ?_ _))
      · intro here tokens statement there hstatement hreads hfollows
        obtain ⟨first, hnext, hkind⟩ := (hopens.statement hstatement).next hreads
        refine .bind (.next?_other hnext ?_)
          (.bind (hcomplete.statement hstatement hreads hfollows) (.pure _))
        intro hcurly
        simp [hcurly, Phrases.opensPhrase] at hkind
      · exact .inr ⟨close, hcloseNext, by simp [hclose]⟩
      · rw [hreads.lastStop_eq (List.cons_ne_nil _ _)]
        rfl

/-! ## Chains -/

theorem arguments {arguments : List Slot}
    (h : Phrases.Closed (phrases.IsSlot .item) tokens arguments)
    (hreads : Reads here tokens there) : below.arguments.Gives here arguments there :=
  separated_of_closed (fun hslot => hslot.opening hopens) (hcomplete.slot hopens) h hreads _

/-- A round of a chain takes an access or a call. -/
theorem link (h : phrases.IsLink start node tokens expr) (hreads : Reads here tokens there) :
    (below.link start mode node).Gives here (.again expr) there := by
  cases h with
  | field hkind =>
      obtain ⟨hnext, rfl⟩ := Reads.singleton_iff.1 hreads
      refine .bind (.peek?_some hnext) ?_
      simp only [hkind]
      exact .bind_take (.bind_spanFrom rfl _)
  | index hkind hslot hclose =>
      obtain ⟨hnext, hrest⟩ := Reads.cons_iff.1 hreads
      obtain ⟨middle, hinner, hcloseNext, rfl⟩ := Reads.append_singleton_iff.1 hrest
      have hfollows : middle.Follows .plain :=
        Place.follows_of_next hcloseNext (.inl (by rw [hclose]; rfl))
      refine .bind (.peek?_some hnext) ?_
      simp only [hkind]
      exact .bind_take (.bind (hcomplete.slot hopens hslot hinner hfollows)
        (.bind (.expect hcloseNext hclose _) (.bind_spanFrom rfl _)))
  | call hkind harguments =>
      obtain ⟨hnext, hrest⟩ := Reads.cons_iff.1 hreads
      refine .bind (.peek?_some hnext) ?_
      simp only [hkind]
      refine .bind_take (.bind (hcomplete.arguments hopens harguments hrest) (.bind_spanFrom ?_ _))
      rw [hrest.lastStop_eq harguments.ne_nil]

/-- A round of a chain ends it. -/
theorem link_done (h : phrases.IsEnd mode start node tokens expr) (hreads : Reads here tokens there)
    (hfollows : there.Follows mode) :
    (below.link start mode node).Gives here (.done expr) there := by
  cases h with
  | stop =>
      obtain rfl := Reads.nil_iff.1 hreads
      intro state hstate
      exact ⟨state, hstate, rfl, link_run_of_follows (hstate ▸ hfollows)⟩
  | comma hstop hkind hright =>
      obtain ⟨hnext, hrest⟩ := Reads.cons_iff.1 hreads
      refine .bind (.peek?_some hnext) ?_
      simp only [hkind, hstop]
      refine .bind_take (.bind (hcomplete.expr hright hrest hfollows) (.bind_spanFrom ?_ _))
      rw [hrest.lastStop_eq (hopens.expr hright).ne_nil]

/-- A round of a chain gives a name its default value. -/
theorem link_fallback {name : Name} {source : Slot} (hdefault : mode.allowDefault = true)
    (hkind : token.kind = .assign) (h : phrases.IsSlot .item tokens source)
    (hreads : Reads here (token :: tokens) there) (hfollows : there.Follows .item) :
    (below.link start mode (.name name)).Gives here
      (.again (.assign (.name name) source (.between start (stopOf tokens)))) there := by
  obtain ⟨hnext, hrest⟩ := Reads.cons_iff.1 hreads
  refine .bind (.peek?_some hnext) ?_
  simp only [hkind, hdefault, if_true]
  refine .bind_take (.bind (hcomplete.slot hopens h hrest hfollows) (.bind_spanFrom ?_ _))
  rw [hrest.lastStop_eq (h.opening hopens).ne_nil]

theorem chain (h : phrases.IsTail mode start node tokens expr) (hreads : Reads here tokens there)
    (hfollows : there.Follows mode) : (below.chain start mode node).Gives here expr there := by
  -- The tail grows where the loop goes round; a default value leaves one more round, for its end.
  induction h generalizing here with
  | done hend => exact .repeated_done (hcomplete.link_done hopens hend hreads hfollows)
  | link hlink _ ih =>
      obtain ⟨middle, hfirst, hrest⟩ := Reads.append_iff.1 hreads
      exact .repeated_again _ (hcomplete.link hopens hlink hfirst) (hfirst.length_lt hlink.ne_nil)
        (ih hrest)
  | fallback hdefault hkind hslot hend =>
      obtain ⟨middle, hfirst, hrest⟩ := Reads.append_iff.1 (Reads.cons_iff.1 hreads).2
      have hassign := Reads.cons (Reads.cons_iff.1 hreads).1 hfirst
      have hitem := hend.follows_item hrest hfollows
      exact .repeated_again _
        (hcomplete.link_fallback hopens hdefault hkind hslot hassign hitem)
        (hassign.length_lt (List.cons_ne_nil _ _))
        (.repeated_done (hcomplete.link_done hopens hend hrest hfollows))

/-! ## Object literals -/

/-- A key is given behind its first token. -/
theorem objectKey {key : ObjectKey} (h : phrases.IsKey tokens key)
    (hreads : Reads here tokens there) (hfirst : here.Next token) :
    (below.objectKey token).Gives (here.past token) key there := by
  cases h with
  | name hkind | string hkind | number hkind =>
      obtain ⟨hnext, hrest⟩ := Reads.cons_iff.1 hreads
      obtain rfl := hfirst.unique hnext
      obtain rfl := Reads.nil_iff.1 hrest
      simp only [Level.objectKey, hkind]
      exact .pure _
  | computed hkind hslot hclose =>
      obtain ⟨hnext, hrest⟩ := Reads.cons_iff.1 hreads
      obtain rfl := hfirst.unique hnext
      obtain ⟨middle, hinner, hcloseNext, rfl⟩ := Reads.append_singleton_iff.1 hrest
      have hfollows : middle.Follows .plain :=
        Place.follows_of_next hcloseNext (.inl (by rw [hclose]; rfl))
      simp only [Level.objectKey, hkind]
      exact .bind (hcomplete.slot hopens hslot hinner hfollows)
        (.bind (.expect hcloseNext hclose _) (.pure _))

theorem objectField {field : ObjectField} {close : Token} (h : phrases.IsField tokens field)
    (hreads : Reads here tokens there) (hclose : there.Next close)
    (hkind : close.kind = .comma ∨ close.kind = .closeCurly) :
    below.objectField.Gives here field there := by
  cases h with
  | shorthand hword =>
      obtain ⟨hnext, rfl⟩ := Reads.singleton_iff.1 hreads
      exact .bind (.next hnext) (.bind (hcomplete.objectKey hopens (.name hword) hreads hnext)
        (.bind (gives_shorthand?_some hclose hkind) (.bind_spanFrom rfl _)))
  | @entry key _ colon more value hkey hcolon hslot =>
      obtain ⟨middle, hkeyReads, hrest⟩ := Reads.append_iff.1 hreads
      obtain ⟨hcolonNext, hvalueReads⟩ := Reads.cons_iff.1 hrest
      obtain ⟨first, keyRest, rfl, -⟩ := hkey.first
      obtain ⟨hnext, -⟩ := Reads.cons_iff.1 hkeyReads
      have hfollows : there.Follows .item := by
        rcases hkind with hkind | hkind
        · exact Place.follows_item hclose (.inl hkind)
        · exact Place.follows_of_next hclose (.inl (by rw [hkind]; rfl))
      refine .bind (.next hnext) (.bind (hcomplete.objectKey hopens hkey hkeyReads hnext)
        (.bind (gives_shorthand?_none hcolonNext hcolon) (.bind (.expect hcolonNext hcolon _)
          (.bind (hcomplete.slot hopens hslot hvalueReads hfollows) (.bind_spanFrom ?_ _)))))
      rw [hreads.lastStop_eq (by simp)]
      rfl

/-- The fields of an object literal are given one after another, up to the closing bracket. -/
theorem fields {fields : List ObjectField} {close : Token} (h : phrases.IsFields tokens fields)
    (hreads : Reads here tokens middle) (hclose : middle.Next close)
    (hkind : close.kind = .closeCurly) :
    Repeats (fun here field? there => below.objectField?.Gives here field? there ∧
      (field?.isSome → there.cursor.rest.length < here.cursor.rest.length))
      here fields (middle.past close) := by
  have hstop : below.objectField?.Gives middle none (middle.past close) :=
    .bind (.next?_some hclose hkind) (.pure none)
  have hopen {tokens : List Token} {field : ObjectField} {here there : Place}
      (hfield : phrases.IsField tokens field) (hreads : Reads here tokens there) :
      (next? .closeCurly).Gives here none here := by
    obtain ⟨first, rest, rfl, hfirst⟩ := hfield.first
    exact .next?_other (Reads.cons_iff.1 hreads).1 hfirst
  induction h generalizing here with
  | nil =>
      obtain rfl := Reads.nil_iff.1 hreads
      exact .stop ⟨hstop, by simp⟩
  | last hfield =>
      refine .more ⟨.bind (hopen hfield hreads) (.bind
        (hcomplete.objectField hopens hfield hreads hclose (.inr hkind)) (.bind (.peek hclose) ?_)),
        fun _ => hreads.length_lt hfield.ne_nil⟩ (.stop ⟨hstop, by simp⟩)
      simp only [hkind]
      exact .pure _
  | more hfield hcomma _ ih =>
      obtain ⟨next, hfieldReads, hrest⟩ := Reads.append_iff.1 hreads
      obtain ⟨hcommaNext, hrest⟩ := Reads.cons_iff.1 hrest
      refine .more ⟨.bind (hopen hfield hfieldReads) (.bind
        (hcomplete.objectField hopens hfield hfieldReads hcommaNext (.inl hcomma))
          (.bind (.peek hcommaNext) ?_)),
        fun _ => Nat.lt_of_lt_of_le hcommaNext.length_lt hfieldReads.length_le⟩ (ih hrest)
      simp only [hcomma]
      exact .bind_take (.pure _)

/-- An object literal goes on behind its closing bracket, where it may turn out to be a pattern. -/
theorem object_fields {literal : Expr} (h : phrases.IsObject tokens literal)
    (hreads : Reads here tokens there) (hbrace : here.Next token) :
    (below.object token).LeadsTo here (do
      if (← next? .assign).isSome then
        let target ← Level.rebound literal.toBinding
        let source ← below.slot .item
        return .assign target source (← spanFrom (startOf tokens))
      else
        return literal) there := by
  cases h with
  | @intro brace inner fields close hkind hfields hclose =>
      obtain ⟨hnext, htail⟩ := Reads.cons_iff.1 hreads
      obtain rfl := hbrace.unique hnext
      obtain ⟨last, hinner, hcloseNext, rfl⟩ := Reads.append_singleton_iff.1 htail
      have hspan : (spanFrom token.span.offset).Gives (last.past close) _ _ := .spanFrom _
      rw [hreads.lastStop_eq (List.cons_ne_nil _ _)] at hspan
      have hgiven := Gives.many (hcomplete.fields hopens hfields hinner hcloseNext hclose)
      exact (Gives.take.leadsTo _).trans ((hgiven.leadsTo _).trans (hspan.leadsTo _))

/-- An object literal is given where no `=` follows it, and with what a pattern takes apart where
one does. -/
theorem object {literal : Expr} (h : phrases.IsObject tokens literal)
    (hreads : Reads here tokens middle) (hbrace : here.Next token)
    (hrest : (expr = literal ∧ there = middle ∧
        (middle.Ended ∨ ∃ next, middle.Next next ∧ next.kind ≠ .assign)) ∨
      (∃ target assign more source, literal.toBinding = .ok target ∧ assign.kind = .assign ∧
        phrases.IsSlot .item more source ∧ Reads middle (assign :: more) there ∧
        there.Follows .item ∧
        expr = .assign target source (.between (startOf tokens) (stopOf more)))) :
    (below.object token).Gives here expr there := by
  refine (hcomplete.object_fields hopens h hreads hbrace).gives ?_
  rcases hrest with
    ⟨rfl, rfl, hended | ⟨next, hnext, hother⟩⟩ |
    ⟨target, assign, more, source, htarget, hassign, hslot, hmore, hfollows, rfl⟩
  · exact .bind (.next?_ended hended) (.pure _)
  · exact .bind (.next?_other hnext hother) (.pure _)
  · obtain ⟨hassignNext, hsource⟩ := Reads.cons_iff.1 hmore
    refine .bind (.next?_some hassignNext hassign) (.bind (gives_rebound htarget)
      (.bind (hcomplete.slot hopens hslot hsource hfollows) (.bind_spanFrom ?_ _)))
    rw [hsource.lastStop_eq (hslot.opening hopens).ne_nil]

/-! ## Groups and arrow functions -/

/-- An arrow function with an expression is given behind its parameters. -/
theorem arrowFunction_expression {parameters : Parameters} {params more : List Token} {body : Slot}
    (hparameters : phrases.IsParameters params parameters)
    (hcurly : more.head?.map (·.kind) ≠ some .openCurly)
    (hbody : phrases.IsSlot mode.value more body) (hreads : Reads here (token :: more) there)
    (hfollows : there.Follows mode) :
    (below.arrowFunction parameters token mode).Gives here
      (.arrow parameters (.expression body) (.between (startOf params) (stopOf more))) there := by
  obtain ⟨-, hmore⟩ := Reads.cons_iff.1 hreads
  obtain ⟨first, rest, rfl, -⟩ := hbody.opening hopens
  obtain ⟨hfirst, -⟩ := Reads.cons_iff.1 hmore
  refine .bind_take (.bind (.peek?_some hfirst) ?_)
  split
  -- The body would be a block only behind a curly bracket.
  · next heq =>
    cases Option.some.inj heq
    exact absurd rfl hcurly
  · refine .bind (hcomplete.slot hopens hbody hmore hfollows) (.bind_spanFrom ?_ _)
    rw [hmore.lastStop_eq (List.cons_ne_nil _ _), hparameters.offset_eq]

/-- An arrow function with a block is given behind its parameters, and its chain goes on. -/
theorem arrowFunction_block {parameters : Parameters} {params more rest : List Token}
    {statements : List Statement} (hparameters : phrases.IsParameters params parameters)
    (hblock : phrases.IsBlock more statements)
    (htail : phrases.IsTail mode.value (startOf params)
      (.arrow parameters (.block statements (cover more)) (.between (startOf params) (stopOf more)))
      rest expr)
    (hreads : Reads here (token :: (more ++ rest)) there) (hfollows : there.Follows mode) :
    (below.arrowFunction parameters token mode).Gives here expr there := by
  obtain ⟨-, htokens⟩ := Reads.cons_iff.1 hreads
  obtain ⟨middle, hmore, hrest⟩ := Reads.append_iff.1 htokens
  have hgiven := hcomplete.block hopens hblock hmore
  cases hblock with
  | @intro brace inner _ close hkind _ _ =>
      obtain ⟨hbrace, -⟩ := Reads.cons_iff.1 hmore
      refine .bind_take (.bind (.peek?_some hbrace) ?_)
      obtain ⟨kind, text, span⟩ := brace
      obtain rfl : kind = .openCurly := hkind
      refine .bind hgiven (.bind (.spanFrom _) ?_)
      rw [hmore.lastStop_eq (List.cons_ne_nil _ _), hparameters.offset_eq]
      exact hcomplete.chain hopens htail hrest hfollows

/-- A group goes on behind its closing bracket, where what follows its content tells what it is. -/
theorem group_content {content : Expr} {close : Token}
    (hcontent : phrases.expr .group tokens content) (hclose : close.kind = .closeRound)
    (hreads : Reads here (token :: (tokens ++ [close])) there) :
    (below.group token mode).LeadsTo here
      (below.filledGroup content (cover (token :: (tokens ++ [close]))) mode) there := by
  obtain ⟨hnext, htail⟩ := Reads.cons_iff.1 hreads
  obtain ⟨last, hinner, hcloseNext, rfl⟩ := Reads.append_singleton_iff.1 htail
  obtain ⟨first, hfirst, hopen⟩ := (hopens.expr hcontent).next hinner
  have hround : first.kind ≠ .closeRound := by
    intro hround
    simp [hround, Phrases.opensPhrase] at hopen
  have hfollows : last.Follows .group :=
    Place.follows_of_next hcloseNext (.inl (by rw [hclose]; rfl))
  have hspan : cover (token :: (tokens ++ [close])) =
      .between token.span.offset close.span.stop := by simp [cover]
  rw [hspan]
  exact (Gives.take.leadsTo _).trans (((Gives.next?_other hfirst hround).leadsTo _).trans
    (((hcomplete.expr hcontent hinner hfollows).leadsTo _).trans
      ((Gives.expect hcloseNext hclose _).leadsTo _)))

/-- A group before an arrow is given as parameters. -/
theorem group_parameters {parameters : Parameters} {arrow : Token}
    (h : phrases.IsParameters tokens parameters) (hreads : Reads here tokens middle)
    (hbracket : here.Next token) (harrow : middle.Next arrow) (hkind : arrow.kind = .arrow)
    (hrest : (below.arrowFunction parameters arrow mode).Gives middle expr there) :
    (below.group token mode).Gives here expr there := by
  cases h with
  | empty _ hclose =>
      obtain ⟨hnext, htail⟩ := Reads.cons_iff.1 hreads
      obtain rfl := hbracket.unique hnext
      obtain ⟨hcloseNext, rfl⟩ := Reads.singleton_iff.1 htail
      refine .bind_take (.bind (.next?_some hcloseNext hclose) (.bind (.peek harrow) ?_))
      rw [if_pos hkind]
      exact hrest
  | group _ hcontent hclose hparameters =>
      obtain rfl := hbracket.unique (Reads.cons_iff.1 hreads).1
      refine (hcomplete.group_content hopens hcontent hclose hreads).gives
        (.bind (.peek?_some harrow) ?_)
      obtain ⟨kind, text, span⟩ := arrow
      obtain rfl : kind = .arrow := hkind
      exact .bind (gives_rebound hparameters) hrest

/-! ## Levels -/

/-- A first part and its tail are given together. -/
theorem expression_chain {primary more : List Token} (hprimary : phrases.IsPrimary primary node)
    (htail : phrases.IsTail mode (startOf primary) node more expr)
    (hreads : Reads here (primary ++ more) there) (hfollows : there.Follows mode) :
    (below.expression mode).Gives here expr there := by
  obtain ⟨middle, hfirst, hmore⟩ := Reads.append_iff.1 hreads
  have hcontinues := htail.continues hmore hfollows
  have hchain := hcomplete.chain hopens htail hmore hfollows
  cases hprimary with
  | name hkind | string hkind | number hkind =>
      obtain ⟨hnext, rfl⟩ := Reads.singleton_iff.1 hfirst
      refine .bind (.peek hnext) ?_
      simp only [hkind]
      exact .bind_take hchain
  | group hkind hcontent hclose =>
      refine .bind (.peek (Reads.cons_iff.1 hfirst).1) ?_
      simp only [hkind]
      refine (hcomplete.group_content hopens hcontent hclose hfirst).gives ?_
      -- No tail starts with an arrow, so the group is not read again as parameters.
      rcases hcontinues with hended | ⟨⟨kind, text, span⟩, hnext, hkind⟩
      · exact .bind (.peek?_none hended) hchain
      · refine .bind (.peek?_some hnext) ?_
        split
        · next heq =>
          cases Option.some.inj heq
          exact hkind.elim
        · exact hchain
  | object hobject =>
      obtain ⟨brace, hnext, hkind, hoffset⟩ := hobject.next hfirst
      refine .bind (.peek hnext) ?_
      simp only [hkind]
      refine .bind (hcomplete.object hopens hobject hfirst hnext (.inl ⟨rfl, rfl, ?_⟩))
        (hoffset ▸ hchain)
      -- Only the tail of a name starts with `=`, and an object is none.
      refine hcontinues.imp id ?_
      rintro ⟨token, hnext, hkind⟩
      refine ⟨token, hnext, ?_⟩
      intro hassign
      rw [hassign] at hkind
      obtain ⟨name, rfl⟩ := hkind
      cases hobject

theorem expression (h : phrases.IsExpression mode tokens expr) (hreads : Reads here tokens there)
    (hfollows : there.Follows mode) : (below.expression mode).Gives here expr there := by
  cases h with
  | chain hprimary htail => exact hcomplete.expression_chain hopens hprimary htail hreads hfollows
  | @unpacking object literal target assign more source rest _ hobject htarget hassign hslot hend =>
      obtain ⟨middle, hfirst, hmore⟩ := Reads.append_iff.1 hreads
      obtain ⟨hassignNext, hsource⟩ := Reads.cons_iff.1 hmore
      obtain ⟨last, hsource, hrest⟩ := Reads.append_iff.1 hsource
      obtain ⟨brace, hnext, hkind, hoffset⟩ := hobject.next hfirst
      refine .bind (.peek hnext) ?_
      simp only [hkind]
      have hitem := hend.follows_item hrest hfollows
      refine .bind (hcomplete.object hopens hobject hfirst hnext (.inr ⟨target, assign, more,
        source, htarget, hassign, hslot, .cons hassignNext hsource, hitem, rfl⟩)) ?_
      rw [← hoffset]
      exact hcomplete.chain hopens (.done hend) hrest hfollows
  | arrow hparameters hkind hcurly hbody =>
      obtain ⟨middle, hfirst, hmore⟩ := Reads.append_iff.1 hreads
      obtain ⟨bracket, hnext, hround⟩ := hparameters.next hfirst
      refine .bind (.peek hnext) ?_
      simp only [hround]
      exact hcomplete.group_parameters hopens hparameters hfirst hnext (Reads.cons_iff.1 hmore).1
        hkind (hcomplete.arrowFunction_expression hopens hparameters hcurly hbody hmore hfollows)
  | arrowBlock hparameters hkind hblock htail =>
      obtain ⟨middle, hfirst, hmore⟩ := Reads.append_iff.1 hreads
      obtain ⟨bracket, hnext, hround⟩ := hparameters.next hfirst
      refine .bind (.peek hnext) ?_
      simp only [hround]
      exact hcomplete.group_parameters hopens hparameters hfirst hnext (Reads.cons_iff.1 hmore).1
        hkind (hcomplete.arrowFunction_block hopens hparameters hblock htail hmore hfollows)

/-! ## Statements -/

omit hcomplete hopens in
theorem declaredName {name : Name} (h : Phrases.IsName tokens name)
    (hreads : Reads here tokens there) (expectation : Expectation) :
    (Level.declaredName expectation).Gives here name there := by
  cases h with
  | intro hkind hreserved =>
      obtain ⟨hnext, rfl⟩ := Reads.singleton_iff.1 hreads
      refine .bind (.next hnext) ?_
      rw [if_pos hkind, if_neg (by rw [hreserved]; decide)]
      exact .pure _

omit hcomplete hopens in
/-- What a declaration without a value goes on with. -/
theorem initializer?_none {modifier : Modifier} (hconst : modifier ≠ .asConst)
    (hkind : token.kind = .semicolon) (hreads : Reads here [token] there) :
    (below.initializer? modifier).Gives here none there := by
  obtain ⟨hnext, rfl⟩ := Reads.singleton_iff.1 hreads
  refine .bind (.next hnext) ?_
  rw [if_neg (by rw [hkind]; decide), if_neg hconst, if_pos hkind]
  exact .pure none

/-- What a declaration with a value goes on with. -/
theorem initializer?_some {modifier : Modifier} {value : Slot} {semicolon : Token}
    (hassign : token.kind = .assign) (h : phrases.IsSlot .plain tokens value)
    (hkind : semicolon.kind = .semicolon)
    (hreads : Reads here (token :: (tokens ++ [semicolon])) there) :
    (below.initializer? modifier).Gives here (some value) there := by
  obtain ⟨hnext, hrest⟩ := Reads.cons_iff.1 hreads
  obtain ⟨middle, hvalue, hsemicolon, rfl⟩ := Reads.append_singleton_iff.1 hrest
  refine .bind (.next hnext) ?_
  rw [if_pos hassign]
  exact .bind (hcomplete.slot hopens h hvalue (Place.follows_of_next hsemicolon (.inr hkind)))
    (.bind (.expect hsemicolon hkind _) (.pure _))

omit hcomplete hopens in
/-- A declaration of a variable is given behind its word. -/
theorem variableDeclaration {modifier : Modifier} {name : Name} {value? : Option Slot}
    {more : List Token} (hname : Phrases.IsName tokens name)
    (hreads : Reads here (token :: (tokens ++ more)) there)
    (hvalue : ∀ {middle}, Reads middle more there →
      (below.initializer? modifier).Gives middle value? there) :
    (below.variableDeclaration token modifier).Gives here
      (.variableDeclaration modifier name value? (cover (token :: (tokens ++ more)))) there := by
  obtain ⟨-, hrest⟩ := Reads.cons_iff.1 hreads
  obtain ⟨middle, hnameReads, hmore⟩ := Reads.append_iff.1 hrest
  refine .bind_take (.bind (declaredName hname hnameReads _) (.bind (hvalue hmore)
    (.bind (.note _) (.bind_spanFrom ?_ _))))
  rw [hreads.lastStop_eq (List.cons_ne_nil _ _)]
  rfl

/-- A declaration of a function is given behind its word. -/
theorem functionDeclaration {bracket : Token} {name : Name} {more block : List Token}
    {parameters : List Name} {statements : List Statement} (hname : Phrases.IsName tokens name)
    (hbracket : bracket.kind = .openRound)
    (hparameters : Phrases.Closed Phrases.IsName more parameters)
    (hblock : phrases.IsBlock block statements)
    (hreads : Reads here (token :: (tokens ++ bracket :: (more ++ block))) there) :
    (below.functionDeclaration token).Gives here (.functionDeclaration name parameters statements
      (cover (token :: (tokens ++ bracket :: (more ++ block))))) there := by
  obtain ⟨-, hrest⟩ := Reads.cons_iff.1 hreads
  obtain ⟨middle, hnameReads, hrest⟩ := Reads.append_iff.1 hrest
  obtain ⟨hbracketNext, hrest⟩ := Reads.cons_iff.1 hrest
  obtain ⟨behind, hmore, hblockReads⟩ := Reads.append_iff.1 hrest
  have hgiven := separated_of_closed (fun hname => hname.opening)
    (fun hname hreads _ => declaredName hname hreads .parameterName) hparameters hmore
    .parameterSeparator
  refine .bind_take (.bind (declaredName hname hnameReads _)
    (.bind (.expect hbracketNext hbracket _) (.bind hgiven
      (.bind (hcomplete.block hopens hblock hblockReads)
        (.bind (.note _) (.bind_spanFrom ?_ _))))))
  rw [hreads.lastStop_eq (List.cons_ne_nil _ _)]
  rfl

theorem expressionStatement {slot : Slot} (h : phrases.IsSlot .plain tokens slot)
    (hkind : token.kind = .semicolon) (hreads : Reads here (tokens ++ [token]) there) :
    below.expressionStatement.Gives here (.expression slot) there := by
  obtain ⟨middle, hslot, hnext, rfl⟩ := Reads.append_singleton_iff.1 hreads
  exact .bind (hcomplete.slot hopens h hslot (Place.follows_of_next hnext (.inr hkind)))
    (.bind (.expect hnext hkind _) (.pure _))

theorem statementBody {statement : Statement} (h : phrases.IsBody tokens statement)
    (hreads : Reads here tokens there) : below.statementBody.Gives here statement there := by
  cases h with
  | declaration hword hmodifier hconst hname hsemicolon =>
      refine .bind (.peek (Reads.cons_iff.1 hreads).1) ?_
      simp only [hword, hmodifier, if_true]
      exact variableDeclaration hname hreads (initializer?_none hconst hsemicolon)
  | initialized hword hmodifier hname hassign hslot hsemicolon =>
      refine .bind (.peek (Reads.cons_iff.1 hreads).1) ?_
      simp only [hword, hmodifier, if_true]
      exact variableDeclaration hname hreads
        (hcomplete.initializer?_some hopens hassign hslot hsemicolon)
  | function hword htext hname hbracket hparameters hblock =>
      refine .bind (.peek (Reads.cons_iff.1 hreads).1) ?_
      have hmodifier : Modifier.ofWord? Spelling.functionWord = none := by decide
      simp only [hword, htext, hmodifier, if_true]
      exact hcomplete.functionDeclaration hopens hname hbracket hparameters hblock hreads
  | @expression tokens slot semicolon hreserved hslot hsemicolon =>
      have hgiven := hcomplete.expressionStatement hopens hslot hsemicolon hreads
      obtain ⟨first, rest, rfl, -⟩ := hslot.opening hopens
      refine .bind (.peek (Reads.cons_iff.1 hreads).1) ?_
      split
      · next hword =>
        have hfree : Spelling.isReserved first.text = false := by
          simpa [Phrases.startsReserved, hword] using hreserved
        obtain ⟨hmodifier, hfunction, hunsupported⟩ := Spelling.of_isReserved_eq_false hfree
        simp only [hmodifier, if_neg hfunction, hunsupported]
        exact hgiven
      · exact hgiven

end Level.Complete

/-- All the semicolons up to where there is none are given. -/
theorem gives_semicolons {semicolons : List Token} (hreads : Reads here semicolons there)
    (hkinds : ∀ token ∈ semicolons, token.kind = .semicolon) (hfollows : there.FollowsStatement) :
    (many (next? .semicolon)).Gives here semicolons there := by
  refine .many ?_
  induction hreads with
  | nil =>
      refine .stop ⟨?_, by simp⟩
      rcases hfollows with hended | ⟨token, hnext, hkind⟩
      · exact .next?_ended hended
      · exact .next?_other hnext hkind
  | cons hnext _ ih =>
      obtain ⟨hkind, hrest⟩ := List.forall_mem_cons.1 hkinds
      exact .more ⟨.next?_some hnext hkind, fun _ => hnext.length_lt⟩ (ih hrest hfollows)

/-- What is derived above the phrases of a complete level is given by the level above it. -/
theorem Level.Complete.above {below : Level} {phrases : Phrases}
    (hcomplete : below.Complete phrases) (hopens : phrases.Opens) :
    below.above.Complete phrases.above where
  expr h hreads hfollows := .construct (.within (hcomplete.expression hopens h hreads hfollows))
  statement h hreads hfollows := by
    cases h with
    | intro hbody hkinds =>
        obtain ⟨middle, hfirst, hsemicolons⟩ := Reads.append_iff.1 hreads
        exact .bind .offset (.bind
          (.inStatement (.construct (.within (hcomplete.statementBody hopens hbody hfirst))))
          (.bind (gives_semicolons hsemicolons hkinds hfollows) (.pure _)))

/-- What is derived with so many statements and expressions on any path is given by that level. -/
theorem complete_ofHeight (height : Nat) : (Level.ofHeight height).Complete (.ofHeight height) := by
  induction height with
  | zero => exact ⟨False.elim, False.elim⟩
  | succ height ih => exact ih.above (Phrases.opens_ofHeight height)

end Scriptlet
