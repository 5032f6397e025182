import Scriptlet.Proofs.Grammar

/-!
# Matched brackets

The brackets of some tokens are `Matched` when each is closed by a bracket of its form and none is
left over. Then a token stands outside all brackets where the tokens before it are matched, and the
bracket that closes a group is the first one that stands so. Whatever the grammar derives has
matched brackets, so a group can be told from its tokens without a derivation.
-/

namespace Scriptlet

/-- The kind that closes a kind of bracket. -/
def Kind.closer? : Kind → Option Kind
  | openRound => some closeRound
  | openSquare => some closeSquare
  | openCurly => some closeCurly
  | _ => none

/-- Whether a kind is a bracket, an opening or a closing one. -/
def Kind.isBracket (kind : Kind) : Bool :=
  kind.closer?.isSome || kind.isClosing

theorem Kind.isClosing_of_closer? {opening closing : Kind} (h : opening.closer? = some closing) :
    closing.isClosing = true := by
  cases opening <;> cases h <;> rfl

theorem Kind.not_isClosing_of_closer? {opening closing : Kind}
    (h : opening.closer? = some closing) : opening.isClosing = false := by
  cases opening <;> first | rfl | cases h

theorem Kind.not_isClosing_of_plain {kind : Kind} (h : kind.isBracket = false) :
    kind.isClosing = false :=
  (Bool.or_eq_false_iff.1 h).2

/-- Each bracket is closed by one of its form, and what stands between the two is matched. -/
inductive Matched : List Token → Prop where
  | nil : Matched []
  | plain {token rest} :
      token.kind.isBracket = false → Matched rest → Matched (token :: rest)
  | bracket {opening inner closing rest} :
      opening.kind.closer? = some closing.kind → Matched inner → Matched rest →
      Matched (opening :: (inner ++ closing :: rest))

namespace Matched

variable {tokens others more inner before after before' after' : List Token}
  {token opening closing closing' : Token}

theorem single (h : token.kind.isBracket = false) : Matched [token] :=
  .plain h .nil

theorem enclosed (hbracket : opening.kind.closer? = some closing.kind) (h : Matched inner) :
    Matched (opening :: (inner ++ [closing])) :=
  .bracket hbracket h .nil

theorem append (h : Matched tokens) (hmore : Matched more) : Matched (tokens ++ more) := by
  induction h with
  | nil => exact hmore
  | plain hkind _ ih => exact .plain hkind ih
  | bracket hbracket hinner _ _ ih =>
      rw [List.cons_append, List.append_assoc]
      exact .bracket hbracket hinner ih

/-- The first closing bracket outside all brackets is the same however tokens are split there. -/
theorem append_inj (h : Matched before) (h' : Matched before')
    (hclosing : closing.kind.isClosing = true) (hclosing' : closing'.kind.isClosing = true)
    (heq : before ++ closing :: after = before' ++ closing' :: after') :
    before = before' ∧ closing = closing' ∧ after = after' := by
  induction h generalizing before' closing closing' after after' with
  | nil =>
      cases h' with
      | nil => simpa using heq
      | plain hkind =>
          obtain ⟨rfl, -⟩ := List.cons.inj heq
          simp [Kind.not_isClosing_of_plain hkind] at hclosing
      | bracket hbracket =>
          obtain ⟨rfl, -⟩ := List.cons.inj heq
          simp [Kind.not_isClosing_of_closer? hbracket] at hclosing
  | @plain token rest hkind _ ih =>
      cases h' with
      | nil =>
          obtain ⟨rfl, -⟩ := List.cons.inj heq
          simp [Kind.not_isClosing_of_plain hkind] at hclosing'
      | plain _ hrest' =>
          obtain ⟨rfl, hrest⟩ := List.cons.inj heq
          obtain ⟨rfl, hsame⟩ := ih hrest' hclosing hclosing' hrest
          exact ⟨rfl, hsame⟩
      | bracket hbracket =>
          obtain ⟨rfl, -⟩ := List.cons.inj heq
          simp [Kind.isBracket, hbracket] at hkind
  | @bracket opening inner close rest hbracket _ _ ihinner ihrest =>
      cases h' with
      | nil =>
          obtain ⟨rfl, -⟩ := List.cons.inj heq
          simp [Kind.not_isClosing_of_closer? hbracket] at hclosing'
      | plain hkind =>
          obtain ⟨rfl, -⟩ := List.cons.inj heq
          simp [Kind.isBracket, hbracket] at hkind
      | bracket hbracket' hinner' hrest' =>
          -- The brackets that open both are one token, so they are closed by one token as well.
          simp only [List.cons_append, List.append_assoc, List.cons.injEq] at heq
          obtain ⟨rfl, hinside⟩ := heq
          obtain ⟨rfl, rfl, hbehind⟩ := ihinner hinner' (Kind.isClosing_of_closer? hbracket)
            (Kind.isClosing_of_closer? hbracket') hinside
          obtain ⟨rfl, hsame⟩ := ihrest hrest' hclosing hclosing' hbehind
          exact ⟨rfl, hsame⟩

/-- Matched tokens that a bracket starts reach as far as the bracket that closes it, or further. -/
theorem exists_of_enclosed {rest : List Token} (h : Matched before) (hne : before ≠ [])
    (hbracket : opening.kind.closer? = some closing.kind) (hinner : Matched inner)
    (heq : before ++ after = opening :: (inner ++ closing :: rest)) :
    ∃ more, before = opening :: (inner ++ closing :: more) ∧ rest = more ++ after ∧
      Matched more := by
  cases h with
  | nil => exact absurd rfl hne
  | plain hkind =>
      obtain ⟨rfl, -⟩ := List.cons.inj heq
      simp [Kind.isBracket, hbracket] at hkind
  | @bracket _ inner' closing' more hbracket' hinner' hmore =>
      simp only [List.cons_append, List.append_assoc, List.cons.injEq] at heq
      obtain ⟨rfl, heq⟩ := heq
      obtain ⟨rfl, rfl, rfl⟩ := hinner'.append_inj hinner (Kind.isClosing_of_closer? hbracket')
        (Kind.isClosing_of_closer? hbracket) heq
      exact ⟨more, rfl, rfl, hmore⟩

/-- Whether brackets are matched hangs on the kinds of tokens. -/
theorem of_kinds (h : Matched tokens) (hkinds : others.map (·.kind) = tokens.map (·.kind)) :
    Matched others := by
  induction h generalizing others with
  | nil =>
      rw [List.map_eq_nil_iff.1 hkinds]
      exact .nil
  | plain hkind _ ih =>
      obtain ⟨token, rest, rfl, htoken, hrest⟩ := List.map_eq_cons_iff.1 hkinds
      exact .plain (htoken ▸ hkind) (ih hrest)
  | bracket hbracket _ _ ihinner ihrest =>
      rw [List.map_cons, List.map_append, List.map_cons] at hkinds
      obtain ⟨opening, behind, rfl, hopening, hkinds⟩ := List.map_eq_cons_iff.1 hkinds
      obtain ⟨inner, behind, rfl, hinner, hkinds⟩ := List.map_eq_append_iff.1 hkinds
      obtain ⟨closing, rest, rfl, hclosing, hrest⟩ := List.map_eq_cons_iff.1 hkinds
      exact .bracket (hopening ▸ hclosing ▸ hbracket) (ihinner hinner) (ihrest hrest)

/-- What stands behind matched tokens in matched tokens is matched. -/
theorem of_append (h : Matched (before ++ after)) (hbefore : Matched before) : Matched after := by
  induction hbefore with
  | nil => exact h
  | plain hkind _ ih =>
      generalize hall : _ :: _ ++ after = all at h
      cases h with
      | nil => cases hall
      | plain _ hrest =>
          obtain ⟨-, rfl⟩ := List.cons.inj hall
          exact ih hrest
      | bracket hbracket =>
          obtain ⟨rfl, -⟩ := List.cons.inj hall
          simp [Kind.isBracket, hbracket] at hkind
  | bracket hbracket hinner _ _ ih =>
      rw [List.cons_append, List.append_assoc, List.cons_append] at h
      obtain ⟨rest, -, hrest, hmatched⟩ := h.exists_of_enclosed (List.cons_ne_nil _ _)
        hbracket hinner (List.append_nil _)
      rw [List.append_nil] at hrest
      exact ih (hrest ▸ hmatched)

theorem of_cons (h : Matched (token :: tokens)) (hkind : token.kind.isBracket = false) :
    Matched tokens :=
  of_append (show Matched ([token] ++ tokens) from h) (single hkind)

end Matched

/-- Tokens that one pair of brackets encloses. -/
inductive Enclosed : List Token → Prop where
  | intro {opening inner closing} :
      opening.kind.closer? = some closing.kind → Matched inner →
      Enclosed (opening :: (inner ++ [closing]))

namespace Enclosed

variable {tokens others more before after : List Token}

theorem matched (h : Enclosed tokens) : Matched tokens := by
  cases h with
  | intro hbracket hinner => exact hinner.enclosed hbracket

/-- Whether brackets enclose some tokens hangs on the kinds of these. -/
theorem of_kinds (h : Enclosed tokens) (hkinds : others.map (·.kind) = tokens.map (·.kind)) :
    Enclosed others := by
  cases h with
  | intro hbracket hinner =>
      rw [List.map_cons, List.map_append, List.map_singleton] at hkinds
      obtain ⟨opening, behind, rfl, hopening, hkinds⟩ := List.map_eq_cons_iff.1 hkinds
      obtain ⟨inner, behind, rfl, hinside, hkinds⟩ := List.map_eq_append_iff.1 hkinds
      obtain ⟨closing, rfl, hclosing⟩ := List.map_eq_singleton_iff.1 hkinds
      exact .intro (hopening ▸ hclosing ▸ hbracket) (hinner.of_kinds hinside)

/-- No enclosed tokens are a part of others at their start. -/
theorem append_inj (h : Enclosed tokens) (hothers : Enclosed others)
    (heq : tokens ++ more = others ++ after) : tokens = others ∧ more = after := by
  cases h with
  | intro hbracket hinner =>
      cases hothers with
      | intro hbracket' hinner' =>
          simp only [List.cons_append, List.append_assoc, List.cons.injEq] at heq
          obtain ⟨rfl, heq⟩ := heq
          obtain ⟨rfl, rfl, rfl⟩ := hinner.append_inj hinner' (Kind.isClosing_of_closer? hbracket)
            (Kind.isClosing_of_closer? hbracket') heq
          exact ⟨rfl, rfl⟩

/-- Matched tokens that start with enclosed ones hold all of these. -/
theorem exists_of_append (h : Enclosed tokens) (hbefore : Matched before) (hne : before ≠ [])
    (heq : before ++ after = tokens ++ more) :
    ∃ rest, before = tokens ++ rest ∧ more = rest ++ after ∧ Matched rest := by
  cases h with
  | intro hbracket hinner =>
      rw [List.cons_append, List.append_assoc] at heq
      obtain ⟨rest, rfl, hmore, hrest⟩ := hbefore.exists_of_enclosed hne hbracket hinner heq
      exact ⟨rest, by simp, hmore, hrest⟩

/-- Matched tokens that enclosed ones start with are none of these or all of them. -/
theorem eq_of_append (h : Enclosed tokens) (hbefore : Matched before) (hne : before ≠ [])
    (heq : before ++ after = tokens) : before = tokens ∧ after = [] := by
  obtain ⟨rest, rfl, hnil, -⟩ :=
    h.exists_of_append hbefore hne (heq.trans (List.append_nil tokens).symm)
  obtain ⟨rfl, rfl⟩ := List.append_eq_nil_iff.1 hnil.symm
  exact ⟨List.append_nil tokens, rfl⟩

end Enclosed

/-! ## Tokens outside all brackets -/

/-- Among matched tokens a token stands outside all brackets where the ones before it are
matched. -/
def Outside (tokens before : List Token) (token : Token) (after : List Token) : Prop :=
  tokens = before ++ token :: after ∧ Matched before

namespace Outside

variable {tokens others more before after : List Token} {token : Token}

/-- What stands outside all brackets stands so behind matched tokens. -/
theorem append (h : Outside more before token after) (htokens : Matched tokens) :
    Outside (tokens ++ more) (tokens ++ before) token after := by
  obtain ⟨rfl, hbefore⟩ := h
  exact ⟨(List.append_assoc _ _ _).symm, htokens.append hbefore⟩

/-- A token outside all brackets stands in the first part of some tokens or in the second one. -/
theorem cases_append (h : Outside (tokens ++ more) before token after) (htokens : Matched tokens) :
    (∃ rest, Outside tokens before token rest ∧ after = rest ++ more) ∨
      ∃ behind, before = tokens ++ behind ∧ Outside more behind token after := by
  obtain ⟨hall, hbefore⟩ := h
  rcases List.append_eq_append_iff.1 hall with ⟨behind, rfl, hmore⟩ | ⟨rest, rfl, hrest⟩
  · exact .inr ⟨behind, rfl, hmore, hbefore.of_append htokens⟩
  · cases rest with
    | nil =>
        rw [List.append_nil] at htokens ⊢
        exact .inr ⟨[], (List.append_nil _).symm, hrest.symm, .nil⟩
    | cons first rest =>
        obtain ⟨rfl, rfl⟩ := List.cons.inj hrest
        exact .inl ⟨rest, ⟨rfl, hbefore⟩, rfl⟩

/-- Of what a pair of brackets encloses only the opening bracket stands outside all brackets. -/
theorem opens_of_enclosed (h : Outside tokens before token after) (htokens : Enclosed tokens) :
    token.kind.closer?.isSome = true := by
  obtain ⟨hall, hbefore⟩ := h
  cases before with
  | cons _ _ =>
      have hnil := (htokens.eq_of_append hbefore (List.cons_ne_nil _ _) hall.symm).2
      cases hnil
  | nil =>
      cases htokens with
      | intro hbracket =>
          obtain ⟨rfl, -⟩ := List.cons.inj hall
          rw [hbracket]
          rfl

/-- Whether a token stands outside all brackets hangs on the kinds of tokens. -/
theorem of_kinds (h : Outside tokens before token after)
    (hkinds : others.map (·.kind) = tokens.map (·.kind)) :
    ∃ before' token' after', Outside others before' token' after' ∧
      before'.map (·.kind) = before.map (·.kind) ∧ token'.kind = token.kind ∧
        after'.map (·.kind) = after.map (·.kind) := by
  obtain ⟨rfl, hbefore⟩ := h
  rw [List.map_append, List.map_cons] at hkinds
  obtain ⟨before', rest, rfl, hfront, hrest⟩ := List.map_eq_append_iff.1 hkinds
  obtain ⟨token', after', rfl, htoken, hafter⟩ := List.map_eq_cons_iff.1 hrest
  exact ⟨before', token', after', ⟨rfl, hbefore.of_kinds hfront⟩, hfront, htoken, hafter⟩

end Outside

namespace Phrases

/-! ## Lists -/

section

variable {α : Type} {item : List Token → α → Prop} {tokens : List Token} {values : List α}
  (hitem : ∀ {tokens value}, item tokens value → Matched tokens)

include hitem

theorem Series.matched (h : Series item tokens values) : Matched tokens := by
  induction h with
  | nil => exact .nil
  | cons hvalue _ ih => exact (hitem hvalue).append ih

theorem Listed.matched (h : Listed item tokens values) : Matched tokens := by
  induction h with
  | last hvalue => exact hitem hvalue
  | more hvalue hcomma _ ih => exact (hitem hvalue).append (.plain (by rw [hcomma]; rfl) ih)

/-- A list between round brackets ends with the bracket that closes it. -/
theorem Closed.matched (h : Closed item tokens values) :
    ∃ inner close, tokens = inner ++ [close] ∧ Matched inner ∧ close.kind = .closeRound := by
  cases h with
  | empty hclose => exact ⟨[], _, rfl, .nil, hclose⟩
  | filled hlisted hclose => exact ⟨_, _, rfl, Listed.matched hitem hlisted, hclose⟩

/-- A list between round brackets is matched together with the bracket that opens it. -/
theorem Closed.matched_cons {bracket : Token} (hbracket : bracket.kind = .openRound)
    (h : Closed item tokens values) : Matched (bracket :: tokens) := by
  obtain ⟨inner, close, rfl, hinner, hclose⟩ := h.matched hitem
  exact hinner.enclosed (by rw [hbracket, hclose]; rfl)

end

/-- Expressions and statements have matched brackets. -/
structure Matches (phrases : Phrases) : Prop where
  expr {mode tokens expr} : phrases.expr mode tokens expr → Matched tokens
  statement {tokens statement} : phrases.statement tokens statement → Matched tokens

variable {below : Phrases} (hbelow : below.Matches) {mode : Mode} {start : Nat} {node expr : Expr}
  {tokens : List Token}

include hbelow

/-! ## Slots, blocks and object literals -/

theorem IsSlot.matched {slot : Slot} (h : below.IsSlot mode tokens slot) : Matched tokens := by
  cases h with
  | intro hexpr => exact hbelow.expr hexpr

theorem IsBlock.enclosed {statements : List Statement} (h : below.IsBlock tokens statements) :
    Enclosed tokens := by
  cases h with
  | intro hbrace hseries hclose =>
      exact .intro (by rw [hbrace, hclose]; rfl) (hseries.matched hbelow.statement)

theorem IsKey.matched {key : ObjectKey} (h : below.IsKey tokens key) : Matched tokens := by
  cases h with
  | name hkind | string hkind | number hkind => exact .single (by rw [hkind]; rfl)
  | computed hbracket hslot hclose =>
      exact (hslot.matched hbelow).enclosed (by rw [hbracket, hclose]; rfl)

theorem IsField.matched {field : ObjectField} (h : below.IsField tokens field) :
    Matched tokens := by
  cases h with
  | shorthand hkind => exact .single (by rw [hkind]; rfl)
  | entry hkey hcolon hslot =>
      exact (hkey.matched hbelow).append (.plain (by rw [hcolon]; rfl) (hslot.matched hbelow))

theorem IsFields.matched {fields : List ObjectField} (h : below.IsFields tokens fields) :
    Matched tokens := by
  induction h with
  | nil => exact .nil
  | last hfield => exact hfield.matched hbelow
  | more hfield hcomma _ ih =>
      exact (hfield.matched hbelow).append (.plain (by rw [hcomma]; rfl) ih)

theorem IsObject.enclosed (h : below.IsObject tokens expr) : Enclosed tokens := by
  cases h with
  | intro hbrace hfields hclose =>
      exact .intro (by rw [hbrace, hclose]; rfl) (hfields.matched hbelow)

/-! ## Expressions -/

/-- The first part of an expression is one token or in brackets. -/
theorem IsPrimary.single_or_enclosed (h : below.IsPrimary tokens node) :
    (∃ token, tokens = [token] ∧ token.kind.isBracket = false) ∨ Enclosed tokens := by
  cases h with
  | name hkind | string hkind | number hkind => exact .inl ⟨_, rfl, by rw [hkind]; rfl⟩
  | group hbracket hcontent hclose =>
      exact .inr (.intro (by rw [hbracket, hclose]; rfl) (hbelow.expr hcontent))
  | object hobject => exact .inr (hobject.enclosed hbelow)

theorem IsPrimary.matched (h : below.IsPrimary tokens node) : Matched tokens := by
  rcases h.single_or_enclosed hbelow with ⟨token, rfl, hkind⟩ | henclosed
  · exact .single hkind
  · exact henclosed.matched

theorem IsEnd.matched (h : below.IsEnd mode start node tokens expr) : Matched tokens := by
  cases h with
  | stop => exact .nil
  | comma _ hcomma hright => exact .plain (by rw [hcomma]; rfl) (hbelow.expr hright)

theorem IsLink.matched {next : Expr} (h : below.IsLink start node tokens next) :
    Matched tokens := by
  cases h with
  | field hkind => exact .single (by rw [hkind]; rfl)
  | index hbracket hslot hclose =>
      exact (hslot.matched hbelow).enclosed (by rw [hbracket, hclose]; rfl)
  | call hbracket hclosed =>
      exact hclosed.matched_cons (fun hslot => hslot.matched hbelow) hbracket

theorem IsTail.matched (h : below.IsTail mode start node tokens expr) : Matched tokens := by
  induction h with
  | done hend => exact hend.matched hbelow
  | link hlink _ ih => exact (hlink.matched hbelow).append ih
  | fallback _ hassign hslot hend =>
      exact .plain (by rw [hassign]; rfl) ((hslot.matched hbelow).append (hend.matched hbelow))

theorem IsParameters.enclosed {parameters : Parameters}
    (h : below.IsParameters tokens parameters) : Enclosed tokens := by
  cases h with
  | empty hbracket hclose => exact .intro (by rw [hbracket, hclose]; rfl) .nil
  | group hbracket hcontent hclose =>
      exact .intro (by rw [hbracket, hclose]; rfl) (hbelow.expr hcontent)

theorem IsExpression.matched (h : below.IsExpression mode tokens expr) : Matched tokens := by
  cases h with
  | chain hprimary htail => exact (hprimary.matched hbelow).append (htail.matched hbelow)
  | unpacking hobject _ hassign hslot hend =>
      exact (hobject.enclosed hbelow).matched.append (.plain (by rw [hassign]; rfl)
        ((hslot.matched hbelow).append (hend.matched hbelow)))
  | arrow hparameters harrow _ hslot =>
      exact (hparameters.enclosed hbelow).matched.append (.plain (by rw [harrow]; rfl)
        (hslot.matched hbelow))
  | arrowBlock hparameters harrow hblock htail =>
      exact (hparameters.enclosed hbelow).matched.append (.plain (by rw [harrow]; rfl)
        ((hblock.enclosed hbelow).matched.append (htail.matched hbelow)))

/-! ## Statements -/

omit hbelow in
theorem IsName.matched {name : Name} (h : IsName tokens name) : Matched tokens := by
  cases h with
  | intro hkind => exact .single (by rw [hkind]; rfl)

theorem IsBody.matched {statement : Statement} (h : below.IsBody tokens statement) :
    Matched tokens := by
  have hlast {semicolon : Token} (hsemicolon : semicolon.kind = .semicolon) :
      Matched [semicolon] := .single (by rw [hsemicolon]; rfl)
  cases h with
  | declaration hkeyword _ _ hname hsemicolon =>
      exact .plain (by rw [hkeyword]; rfl) (hname.matched.append (hlast hsemicolon))
  | initialized hkeyword _ hname hassign hslot hsemicolon =>
      exact .plain (by rw [hkeyword]; rfl) (hname.matched.append (.plain (by rw [hassign]; rfl)
        ((hslot.matched hbelow).append (hlast hsemicolon))))
  | function hkeyword _ hname hbracket hclosed hblock =>
      have hparameters := hclosed.matched_cons IsName.matched hbracket
      exact .plain (by rw [hkeyword]; rfl)
        (hname.matched.append (hparameters.append (hblock.enclosed hbelow).matched))
  | expression _ hslot hsemicolon => exact (hslot.matched hbelow).append (hlast hsemicolon)

theorem IsStatement.matched {statement : Statement} (h : below.IsStatement tokens statement) :
    Matched tokens := by
  cases h with
  | @intro _ _ semicolons hbody hkinds =>
      refine (hbody.matched hbelow).append ?_
      clear hbody
      induction semicolons with
      | nil => exact .nil
      | cons semicolon semicolons ih =>
          obtain ⟨hkind, hkinds⟩ := List.forall_mem_cons.1 hkinds
          exact .plain (by rw [hkind]; rfl) (ih hkinds)

omit hbelow in
/-- Whatever is derived has matched brackets. -/
theorem matches_ofHeight (height : Nat) : (ofHeight height).Matches := by
  induction height with
  | zero => exact ⟨False.elim, False.elim⟩
  | succ height ih => exact ⟨IsExpression.matched ih, IsStatement.matched ih⟩

/-! ## Brackets around an expression -/

omit hbelow in
/-- Where no tokens are left an expression has come to its end. -/
theorem IsTail.eq_of_nil (h : below.IsTail mode start node [] expr) :
    expr = node := by
  generalize hnil : ([] : List Token) = tokens at h
  cases h with
  | done hend =>
      cases hend with
      | stop => rfl
      | comma => cases hnil
  | link hlink => exact absurd (List.append_eq_nil_iff.1 hnil.symm).1 hlink.ne_nil
  | fallback => cases hnil

section

variable {opening closing : Token} {inner : List Token}

/-- An expression that one pair of brackets encloses is a first part alone. -/
theorem IsExpression.primary_of_enclosed (h : below.IsExpression mode tokens expr)
    (henclosed : Enclosed tokens) : below.IsPrimary tokens expr := by
  cases h with
  | chain hprimary htail =>
      obtain ⟨hall, rfl⟩ :=
        henclosed.eq_of_append (hprimary.matched hbelow) hprimary.opening.ne_nil rfl
      rw [List.append_nil, htail.eq_of_nil]
      exact hprimary
  | unpacking hobject =>
      have hnil := (henclosed.eq_of_append (hobject.enclosed hbelow).matched
        hobject.opening.ne_nil rfl).2
      cases hnil
  | arrow hparameters | arrowBlock hparameters =>
      have hnil := (henclosed.eq_of_append (hparameters.enclosed hbelow).matched
        hparameters.opening.ne_nil rfl).2
      cases hnil

omit hbelow in
/-- What starts with a round bracket and is a first part is a group. -/
theorem IsPrimary.content_of_round (h : below.IsPrimary (opening :: (inner ++ [closing])) node)
    (hkind : opening.kind = .openRound) : below.expr .group inner node := by
  generalize hall : opening :: (inner ++ [closing]) = tokens at h
  cases h with
  | name hother | string hother | number hother =>
      obtain ⟨rfl, -⟩ := List.cons.inj hall
      rw [hkind] at hother
      cases hother
  | group _ hcontent _ =>
      obtain ⟨rfl, -⟩ := List.append_inj' (List.cons.inj hall).2 rfl
      exact hcontent
  | object hobject =>
      cases hobject with
      | intro hother =>
          obtain ⟨rfl, -⟩ := List.cons.inj hall
          rw [hkind] at hother
          cases hother

omit hbelow in
/-- What starts with a curly bracket and is a first part is an object literal. -/
theorem IsPrimary.object_of_curly {rest : List Token} (h : below.IsPrimary (opening :: rest) node)
    (hkind : opening.kind = .openCurly) : below.IsObject (opening :: rest) node := by
  cases h with
  | name hother | string hother | number hother | group hother =>
      rw [hkind] at hother
      cases hother
  | object hobject => exact hobject

end

end Phrases

end Scriptlet
