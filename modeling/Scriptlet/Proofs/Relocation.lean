import Scriptlet.Proofs.Grammar
import Scriptlet.Proofs.Likeness
import Scriptlet.Proofs.Spans

/-!
# Derivations elsewhere

A derivation says of its tokens what kinds and texts they have, and puts their spans into the tree.
So it can be carried over to tokens that differ in their spans only, and derives a tree that differs
in its spans only. It can be carried over to any mode that allows what its own mode allows, too: a
mode decides where an expression ends, not what it is. And it can be carried over to any greater
height, which bounds a derivation and takes no part in it.
-/

namespace Scriptlet

/-- Tokens that differ in their span, by the relation `R`. -/
structure Token.Alike (R : Span → Span → Prop) (token other : Token) : Prop where
  kind : other.kind = token.kind
  text : other.text = token.text
  span : R token.span other.span

/-- Whatever one mode allows in an expression, the other allows. -/
structure Mode.AllowedBy (mode other : Mode) : Prop where
  comma : mode.stopAtComma = false → other.stopAtComma = false
  fallback : mode.allowDefault = true → other.allowDefault = true

theorem Mode.AllowedBy.refl (mode : Mode) : mode.AllowedBy mode :=
  ⟨id, id⟩

theorem Mode.AllowedBy.value {mode other : Mode} (h : mode.AllowedBy other) :
    mode.value.AllowedBy other.value :=
  ⟨h.comma, id⟩

/-- What has no default value is allowed in a group. -/
theorem Mode.allowedBy_group {mode : Mode} : mode.AllowedBy .group :=
  ⟨fun _ => rfl, fun _ => rfl⟩

/-- Spans from one place to another are related where the spans at both places are. -/
structure Covering (R : Span → Span → Prop) : Prop where
  between {first first' last last' : Span} :
    R first first' → R last last' →
      R (.between first.offset last.stop) (.between first'.offset last'.stop)

section

variable (R : Span → Span → Prop)

/-- Offsets where related spans start. -/
def StartAlike (start start' : Nat) : Prop :=
  ∃ first first', R first first' ∧ start = first.offset ∧ start' = first'.offset

/-- Offsets where related spans stop. -/
def StopAlike (stop stop' : Nat) : Prop :=
  ∃ last last', R last last' ∧ stop = last.stop ∧ stop' = last'.stop

/-- What is derived in one way is derived alike from alike tokens in the other way. -/
def Carries {α : Type} (alike : α → α → Prop) (item item' : List Token → α → Prop) : Prop :=
  ∀ ⦃tokens others value⦄, item tokens value → List.Forall₂ (Token.Alike R) tokens others →
    ∃ value', item' others value' ∧ alike value value'

end

variable {R : Span → Span → Prop}

/-! ## Lists of tokens -/

/-- What two lists relate item by item splits where the first one does. -/
theorem forall₂_of_append {α β : Type} {P : α → β → Prop} {before after : List α}
    {others : List β} (h : List.Forall₂ P (before ++ after) others) :
    ∃ before' after', others = before' ++ after' ∧ List.Forall₂ P before before' ∧
      List.Forall₂ P after after' := by
  induction before generalizing others with
  | nil => exact ⟨[], others, rfl, .nil, h⟩
  | cons first before ih =>
      cases h with
      | cons hfirst hrest =>
          obtain ⟨before', after', rfl, hbefore, hafter⟩ := ih hrest
          exact ⟨_ :: before', after', rfl, .cons hfirst hbefore, hafter⟩

theorem forall₂_of_concat {α β : Type} {P : α → β → Prop} {before : List α} {last : α}
    {others : List β} (h : List.Forall₂ P (before ++ [last]) others) :
    ∃ before' last', others = before' ++ [last'] ∧ List.Forall₂ P before before' ∧
      P last last' := by
  obtain ⟨before', after', rfl, hbefore, hafter⟩ := forall₂_of_append h
  rcases hafter with _ | ⟨hlast, _ | _⟩
  exact ⟨before', _, rfl, hbefore, hlast⟩

theorem forall₂_of_bracketed {α β : Type} {P : α → β → Prop} {first last : α} {inner : List α}
    {others : List β} (h : List.Forall₂ P (first :: (inner ++ [last])) others) :
    ∃ first' inner' last', others = first' :: (inner' ++ [last']) ∧ P first first' ∧
      List.Forall₂ P inner inner' ∧ P last last' := by
  obtain _ | ⟨hfirst, hrest⟩ := h
  obtain ⟨inner', last', rfl, hinner, hlast⟩ := forall₂_of_concat hrest
  exact ⟨_, inner', last', rfl, hfirst, hinner, hlast⟩

section

variable {tokens others : List Token} (h : List.Forall₂ (Token.Alike R) tokens others)

include h

theorem startAlike_of_ne_nil (hne : tokens ≠ []) :
    StartAlike R (startOf tokens) (startOf others) := by
  cases h with
  | nil => exact absurd rfl hne
  | cons hfirst _ => exact ⟨_, _, hfirst.span, rfl, rfl⟩

theorem stopAlike_of_ne_nil (hne : tokens ≠ []) : StopAlike R (stopOf tokens) (stopOf others) := by
  obtain ⟨initial, last, rfl⟩ := List.eq_nil_or_concat tokens |>.resolve_left hne
  rw [List.concat_eq_append] at h ⊢
  obtain ⟨initial', last', rfl, -, hlast⟩ := forall₂_of_concat h
  exact ⟨last.span, last'.span, hlast.span, by simp, by simp⟩

theorem cover_alike (hR : Covering R) (hne : tokens ≠ []) : R (cover tokens) (cover others) := by
  obtain ⟨first, first', hfirst, hstart, hstart'⟩ := startAlike_of_ne_nil h hne
  obtain ⟨last, last', hlast, hstop, hstop'⟩ := stopAlike_of_ne_nil h hne
  unfold cover
  rw [hstart, hstart', hstop, hstop']
  exact hR.between hfirst hlast

theorem head?_kind_eq : others.head?.map (·.kind) = tokens.head?.map (·.kind) := by
  cases h with
  | nil => rfl
  | cons hfirst _ => exact congrArg some hfirst.kind

theorem startsReserved_eq : Phrases.startsReserved others = Phrases.startsReserved tokens := by
  cases h with
  | nil => rfl
  | cons hfirst _ => simp [Phrases.startsReserved, hfirst.kind, hfirst.text]

/-- Tokens that are alike to tokens of one kind are of that kind. -/
theorem forall_kind_eq {kind : Kind} (hkind : ∀ token ∈ tokens, token.kind = kind) :
    ∀ token ∈ others, token.kind = kind := by
  induction h with
  | nil => simp
  | cons hfirst _ ih =>
      obtain ⟨hthis, hrest⟩ := List.forall_mem_cons.1 hkind
      exact List.forall_mem_cons.2 ⟨hfirst.kind.trans hthis, ih hrest⟩

end

theorem between_alike (hR : Covering R) {start start' stop stop' : Nat}
    (hstart : StartAlike R start start') (hstop : StopAlike R stop stop') :
    R (.between start stop) (.between start' stop') := by
  obtain ⟨first, first', hfirst, rfl, rfl⟩ := hstart
  obtain ⟨last, last', hlast, rfl, rfl⟩ := hstop
  exact hR.between hfirst hlast

/-- An alike token is one of the same kind. -/
theorem Token.Alike.kind_eq {token other : Token} {kind : Kind} (h : Token.Alike R token other)
    (hkind : token.kind = kind) : other.kind = kind :=
  h.kind.trans hkind

/-- The names that alike tokens are. -/
theorem Token.Alike.name {token other : Token} (h : Token.Alike R token other) :
    Name.Alike R ⟨token.text, token.span⟩ ⟨other.text, other.span⟩ := by
  rw [h.text]
  exact .intro h.span

namespace Phrases

/-! ## Lists -/

section

variable {α : Type} {alike : α → α → Prop} {item item' : List Token → α → Prop}
  (hitem : Carries R alike item item')

include hitem

theorem Series.carries : Carries R (List.Forall₂ alike) (Series item) (Series item') := by
  intro tokens others values h htokens
  induction h generalizing others with
  | nil =>
      cases htokens
      exact ⟨[], .nil, .nil⟩
  | cons hvalue _ ih =>
      obtain ⟨first, rest, rfl, hfirst, hrest⟩ := forall₂_of_append htokens
      obtain ⟨value', hvalue', halike⟩ := hitem hvalue hfirst
      obtain ⟨values', hvalues', halikes⟩ := ih hrest
      exact ⟨value' :: values', .cons hvalue' hvalues', .cons halike halikes⟩

theorem Listed.carries : Carries R (List.Forall₂ alike) (Listed item) (Listed item') := by
  intro tokens others values h htokens
  induction h generalizing others with
  | last hvalue =>
      obtain ⟨value', hvalue', halike⟩ := hitem hvalue htokens
      exact ⟨[value'], .last hvalue', .cons halike .nil⟩
  | more hvalue hcomma _ ih =>
      obtain ⟨first, rest, rfl, hfirst, hrest⟩ := forall₂_of_append htokens
      obtain _ | ⟨hcomma', hmore⟩ := hrest
      obtain ⟨value', hvalue', halike⟩ := hitem hvalue hfirst
      obtain ⟨values', hvalues', halikes⟩ := ih hmore
      exact ⟨value' :: values', .more hvalue' (hcomma'.kind_eq hcomma) hvalues',
        .cons halike halikes⟩

theorem Closed.carries : Carries R (List.Forall₂ alike) (Closed item) (Closed item') := by
  intro tokens others values h htokens
  cases h with
  | empty hclose =>
      obtain _ | ⟨hclose', _ | _⟩ := htokens
      exact ⟨[], .empty (hclose'.kind_eq hclose), .nil⟩
  | filled hlisted hclose =>
      obtain ⟨inner, close', rfl, hinner, hclose'⟩ := forall₂_of_concat htokens
      obtain ⟨values', hvalues', halikes⟩ := Listed.carries hitem hlisted hinner
      exact ⟨values', .filled hvalues' (hclose'.kind_eq hclose), halikes⟩

end

/-- Derivations by some phrases are carried over to alike tokens and other phrases, and those of
expressions to all modes that allow as much. -/
structure Movable (phrases phrases' : Phrases) (R : Span → Span → Prop) : Prop where
  expr {mode mode' : Mode} :
    mode.AllowedBy mode' → Carries R (Expr.Alike R) (phrases.expr mode) (phrases'.expr mode')
  statement : Carries R (Statement.Alike R) phrases.statement phrases'.statement

variable {below below' : Phrases} (hR : Covering R) (hbelow : below.Movable below' R)
  (hopens : below.Opens) {mode mode' : Mode} (hmode : mode.AllowedBy mode')

include hR hbelow hopens

/-! ## Slots, blocks and object literals -/

include hmode in
theorem IsSlot.carries : Carries R (Slot.Alike R) (below.IsSlot mode) (below'.IsSlot mode') := by
  rintro tokens others _ ⟨hexpr⟩ htokens
  obtain ⟨expr', hexpr', halike⟩ := hbelow.expr hmode hexpr htokens
  exact ⟨_, .intro hexpr', .intro halike (cover_alike htokens hR (hopens.expr hexpr).ne_nil)⟩

omit hR hopens in
theorem IsBlock.carries :
    Carries R (List.Forall₂ (Statement.Alike R)) below.IsBlock below'.IsBlock := by
  rintro tokens others _ ⟨hbrace, hseries, hclose⟩ htokens
  obtain ⟨_, inner, close', rfl, hbrace', hinner, hclose'⟩ := forall₂_of_bracketed htokens
  obtain ⟨statements', hstatements', halike⟩ := Series.carries hbelow.statement hseries hinner
  exact ⟨statements', .intro (hbrace'.kind_eq hbrace) hstatements' (hclose'.kind_eq hclose), halike⟩

theorem IsKey.carries : Carries R (ObjectKey.Alike R) below.IsKey below'.IsKey := by
  intro tokens others key h htokens
  cases h with
  | name hkind =>
      obtain _ | ⟨htoken, _ | _⟩ := htokens
      exact ⟨_, .name (htoken.kind_eq hkind), .name htoken.name⟩
  | string hkind =>
      obtain _ | ⟨htoken, _ | _⟩ := htokens
      exact ⟨_, .string (htoken.kind_eq hkind), htoken.text ▸ .string htoken.span⟩
  | number hkind =>
      obtain _ | ⟨htoken, _ | _⟩ := htokens
      exact ⟨_, .number (htoken.kind_eq hkind), htoken.text ▸ .number htoken.span⟩
  | computed hbracket hslot hclose =>
      obtain ⟨_, inner, close', rfl, hbracket', hinner, hclose'⟩ := forall₂_of_bracketed htokens
      obtain ⟨slot', hslot', halike⟩ := IsSlot.carries hR hbelow hopens (.refl _) hslot hinner
      exact ⟨_, .computed (hbracket'.kind_eq hbracket) hslot' (hclose'.kind_eq hclose),
        .computed halike⟩

theorem IsField.carries : Carries R (ObjectField.Alike R) below.IsField below'.IsField := by
  intro tokens others field h htokens
  have hspan := cover_alike htokens hR h.ne_nil
  cases h with
  | shorthand hkind =>
      obtain _ | ⟨htoken, _ | _⟩ := htokens
      exact ⟨_, .shorthand (htoken.kind_eq hkind),
        .intro (.name htoken.name) (.bare (.name htoken.name)) hspan⟩
  | entry hkey hcolon hslot =>
      obtain ⟨first, rest, rfl, hfirst, hrest⟩ := forall₂_of_append htokens
      obtain _ | ⟨hcolon', hrest⟩ := hrest
      obtain ⟨key', hkey', hkeys⟩ := IsKey.carries hR hbelow hopens hkey hfirst
      obtain ⟨slot', hslot', hslots⟩ := IsSlot.carries hR hbelow hopens (.refl _) hslot hrest
      exact ⟨_, .entry hkey' (hcolon'.kind_eq hcolon) hslot', .intro hkeys hslots hspan⟩

theorem IsFields.carries :
    Carries R (List.Forall₂ (ObjectField.Alike R)) below.IsFields below'.IsFields := by
  intro tokens others fields h htokens
  induction h generalizing others with
  | nil =>
      cases htokens
      exact ⟨[], .nil, .nil⟩
  | last hfield =>
      obtain ⟨field', hfield', halike⟩ := IsField.carries hR hbelow hopens hfield htokens
      exact ⟨[field'], .last hfield', .cons halike .nil⟩
  | more hfield hcomma _ ih =>
      obtain ⟨first, rest, rfl, hfirst, hrest⟩ := forall₂_of_append htokens
      obtain _ | ⟨hcomma', hmore⟩ := hrest
      obtain ⟨field', hfield', halike⟩ := IsField.carries hR hbelow hopens hfield hfirst
      obtain ⟨fields', hfields', halikes⟩ := ih hmore
      exact ⟨field' :: fields', .more hfield' (hcomma'.kind_eq hcomma) hfields',
        .cons halike halikes⟩

theorem IsObject.carries : Carries R (Expr.Alike R) below.IsObject below'.IsObject := by
  rintro tokens others _ ⟨hbrace, hfields, hclose⟩ htokens
  have hspan := cover_alike htokens hR (List.cons_ne_nil _ _)
  obtain ⟨_, inner, close', rfl, hbrace', hinner, hclose'⟩ := forall₂_of_bracketed htokens
  obtain ⟨fields', hfields', halike⟩ := IsFields.carries hR hbelow hopens hfields hinner
  exact ⟨_, .intro (hbrace'.kind_eq hbrace) hfields' (hclose'.kind_eq hclose), .object halike hspan⟩

/-! ## Expressions -/

theorem IsPrimary.carries : Carries R (Expr.Alike R) below.IsPrimary below'.IsPrimary := by
  intro tokens others node h htokens
  cases h with
  | name hkind =>
      obtain _ | ⟨htoken, _ | _⟩ := htokens
      exact ⟨_, .name (htoken.kind_eq hkind), .name htoken.name⟩
  | string hkind =>
      obtain _ | ⟨htoken, _ | _⟩ := htokens
      exact ⟨_, .string (htoken.kind_eq hkind), htoken.text ▸ .string htoken.span⟩
  | number hkind =>
      obtain _ | ⟨htoken, _ | _⟩ := htokens
      exact ⟨_, .number (htoken.kind_eq hkind), htoken.text ▸ .number htoken.span⟩
  | group hbracket hcontent hclose =>
      obtain ⟨_, inner, close', rfl, hbracket', hinner, hclose'⟩ := forall₂_of_bracketed htokens
      obtain ⟨content', hcontent', halike⟩ := hbelow.expr (.refl _) hcontent hinner
      exact ⟨content', .group (hbracket'.kind_eq hbracket) hcontent' (hclose'.kind_eq hclose),
        halike⟩
  | object hobject =>
      obtain ⟨literal', hliteral', halike⟩ := IsObject.carries hR hbelow hopens hobject htokens
      exact ⟨literal', .object hliteral', halike⟩

variable {tokens others : List Token} {start start' : Nat} {node node' expr : Expr}

include hmode in
theorem IsEnd.carried (h : below.IsEnd mode start node tokens expr)
    (htokens : List.Forall₂ (Token.Alike R) tokens others) (hstart : StartAlike R start start')
    (hnode : node.Alike R node') :
    ∃ expr', below'.IsEnd mode' start' node' others expr' ∧ expr.Alike R expr' := by
  cases h with
  | stop =>
      cases htokens
      exact ⟨node', .stop, hnode⟩
  | comma hallowed hcomma hright =>
      obtain _ | ⟨hcomma', hrest⟩ := htokens
      obtain ⟨right', hright', halike⟩ := hbelow.expr hmode hright hrest
      have hstop := stopAlike_of_ne_nil hrest (hopens.expr hright).ne_nil
      exact ⟨_, .comma (hmode.comma hallowed) (hcomma'.kind_eq hcomma) hright',
        .sequence hnode halike (between_alike hR hstart hstop)⟩

theorem IsLink.carried {next : Expr} (h : below.IsLink start node tokens next)
    (htokens : List.Forall₂ (Token.Alike R) tokens others) (hstart : StartAlike R start start')
    (hnode : node.Alike R node') :
    ∃ next', below'.IsLink start' node' others next' ∧ next.Alike R next' := by
  cases h with
  | field hkind =>
      obtain _ | ⟨htoken, _ | _⟩ := htokens
      have hspan := between_alike hR hstart ⟨_, _, htoken.span, rfl, rfl⟩
      exact ⟨_, .field (htoken.kind_eq hkind), htoken.text ▸ .field hnode hspan⟩
  | index hbracket hslot hclose =>
      obtain ⟨_, inner, close', rfl, hbracket', hinner, hclose'⟩ := forall₂_of_bracketed htokens
      obtain ⟨slot', hslot', halike⟩ := IsSlot.carries hR hbelow hopens (.refl _) hslot hinner
      exact ⟨_, .index (hbracket'.kind_eq hbracket) hslot' (hclose'.kind_eq hclose),
        .index hnode halike (between_alike hR hstart ⟨_, _, hclose'.span, rfl, rfl⟩)⟩
  | call hbracket hclosed =>
      obtain _ | ⟨hbracket', hinner⟩ := htokens
      obtain ⟨arguments', harguments', halike⟩ :=
        Closed.carries (IsSlot.carries hR hbelow hopens (.refl _)) hclosed hinner
      exact ⟨_, .call (hbracket'.kind_eq hbracket) harguments',
        .call hnode halike (between_alike hR hstart (stopAlike_of_ne_nil hinner hclosed.ne_nil))⟩

include hmode in
theorem IsTail.carried (h : below.IsTail mode start node tokens expr)
    (htokens : List.Forall₂ (Token.Alike R) tokens others) (hstart : StartAlike R start start')
    (hnode : node.Alike R node') :
    ∃ expr', below'.IsTail mode' start' node' others expr' ∧ expr.Alike R expr' := by
  induction h generalizing others node' with
  | done hend =>
      obtain ⟨expr', hend', halike⟩ :=
        IsEnd.carried hR hbelow hopens hmode hend htokens hstart hnode
      exact ⟨expr', .done hend', halike⟩
  | link hlink _ ih =>
      obtain ⟨first, rest, rfl, hfirst, hrest⟩ := forall₂_of_append htokens
      obtain ⟨next', hlink', hnext⟩ := IsLink.carried hR hbelow hopens hlink hfirst hstart hnode
      obtain ⟨expr', htail', halike⟩ := ih hrest hnext
      exact ⟨expr', .link hlink' htail', halike⟩
  | fallback hallowed hassign hslot hend =>
      obtain _ | ⟨hassign', hrest⟩ := htokens
      obtain ⟨inner, rest, rfl, hinner, hrest⟩ := forall₂_of_append hrest
      obtain ⟨source', hslot', hsource⟩ :=
        IsSlot.carries hR hbelow hopens (.refl _) hslot hinner
      cases hnode with | name hname =>
      have hstop := stopAlike_of_ne_nil hinner (hslot.opening hopens).ne_nil
      obtain ⟨expr', hend', halike⟩ := IsEnd.carried hR hbelow hopens hmode hend hrest hstart
        (.assign (.name hname) hsource (between_alike hR hstart hstop))
      exact ⟨expr', .fallback (hmode.fallback hallowed) (hassign'.kind_eq hassign) hslot' hend',
        halike⟩

omit hopens in
theorem IsParameters.carries :
    Carries R (Parameters.Alike R) below.IsParameters below'.IsParameters := by
  intro tokens others parameters h htokens
  have hspan := cover_alike htokens hR h.opening.ne_nil
  cases h with
  | empty hbracket hclose =>
      obtain _ | ⟨hbracket', _ | ⟨hclose', _ | _⟩⟩ := htokens
      exact ⟨_, .empty (hbracket'.kind_eq hbracket) (hclose'.kind_eq hclose), .intro .nil hspan⟩
  | group hbracket hcontent hclose hparameters =>
      obtain ⟨_, inner, close', rfl, hbracket', hinner, hclose'⟩ := forall₂_of_bracketed htokens
      obtain ⟨content', hcontent', halike⟩ := hbelow.expr (.refl _) hcontent hinner
      have hresult := halike.toParameters hspan
      rw [hparameters] at hresult
      generalize hfound : content'.toParameters _ = result at hresult
      cases hresult with
      | ok hsame =>
          exact ⟨_, .group (hbracket'.kind_eq hbracket) hcontent' (hclose'.kind_eq hclose) hfound,
            hsame⟩

include hmode in
theorem IsExpression.carries :
    Carries R (Expr.Alike R) (below.IsExpression mode) (below'.IsExpression mode') := by
  intro tokens others expr h htokens
  cases h with
  | chain hprimary htail =>
      obtain ⟨first, rest, rfl, hfirst, hrest⟩ := forall₂_of_append htokens
      obtain ⟨node', hprimary', hnode⟩ := IsPrimary.carries hR hbelow hopens hprimary hfirst
      obtain ⟨expr', htail', halike⟩ := IsTail.carried hR hbelow hopens hmode htail hrest
        (startAlike_of_ne_nil hfirst hprimary.opening.ne_nil) hnode
      exact ⟨expr', .chain hprimary' htail', halike⟩
  | unpacking hobject htarget hassign hslot hend =>
      obtain ⟨first, rest, rfl, hfirst, hrest⟩ := forall₂_of_append htokens
      obtain _ | ⟨hassign', hrest⟩ := hrest
      obtain ⟨inner, rest, rfl, hinner, hrest⟩ := forall₂_of_append hrest
      obtain ⟨literal', hobject', hliteral⟩ := IsObject.carries hR hbelow hopens hobject hfirst
      obtain ⟨source', hslot', hsource⟩ :=
        IsSlot.carries hR hbelow hopens (.refl _) hslot hinner
      have hstart := startAlike_of_ne_nil hfirst hobject.opening.ne_nil
      have hstop := stopAlike_of_ne_nil hinner (hslot.opening hopens).ne_nil
      have hresult := hliteral.toBinding
      rw [htarget] at hresult
      generalize hfound : literal'.toBinding = result at hresult
      cases hresult with
      | ok hbinding =>
          obtain ⟨expr', hend', halike⟩ := IsEnd.carried hR hbelow hopens hmode hend hrest hstart
            (.assign hbinding hsource (between_alike hR hstart hstop))
          exact ⟨expr', .unpacking hobject' hfound (hassign'.kind_eq hassign) hslot' hend', halike⟩
  | arrow hparameters harrow hbrace hslot =>
      obtain ⟨first, rest, rfl, hfirst, hrest⟩ := forall₂_of_append htokens
      obtain _ | ⟨harrow', hrest⟩ := hrest
      obtain ⟨parameters', hparameters', hformals⟩ :=
        IsParameters.carries hR hbelow hparameters hfirst
      obtain ⟨body', hslot', hbody⟩ :=
        IsSlot.carries hR hbelow hopens hmode.value hslot hrest
      have hstart := startAlike_of_ne_nil hfirst hparameters.opening.ne_nil
      have hstop := stopAlike_of_ne_nil hrest (hslot.opening hopens).ne_nil
      exact ⟨_, .arrow hparameters' (harrow'.kind_eq harrow) (by rwa [head?_kind_eq hrest]) hslot',
        .arrow hformals (.expression hbody) (between_alike hR hstart hstop)⟩
  | arrowBlock hparameters harrow hblock htail =>
      obtain ⟨first, rest, rfl, hfirst, hrest⟩ := forall₂_of_append htokens
      obtain _ | ⟨harrow', hrest⟩ := hrest
      obtain ⟨inner, rest, rfl, hinner, hrest⟩ := forall₂_of_append hrest
      obtain ⟨parameters', hparameters', hformals⟩ :=
        IsParameters.carries hR hbelow hparameters hfirst
      obtain ⟨statements', hblock', hstatements⟩ := IsBlock.carries hbelow hblock hinner
      have hne := hblock.ne_nil
      have hstart := startAlike_of_ne_nil hfirst hparameters.opening.ne_nil
      obtain ⟨expr', htail', halike⟩ := IsTail.carried hR hbelow hopens hmode.value htail hrest
        hstart (.arrow hformals (.block hstatements (cover_alike hinner hR hne))
          (between_alike hR hstart (stopAlike_of_ne_nil hinner hne)))
      exact ⟨expr', .arrowBlock hparameters' (harrow'.kind_eq harrow) hblock' htail', halike⟩

/-! ## Statements -/

omit hR hbelow hopens in
theorem IsName.carries : Carries R (Name.Alike R) IsName IsName := by
  rintro tokens others _ ⟨hkind, hfree⟩ htokens
  obtain _ | ⟨htoken, _ | _⟩ := htokens
  exact ⟨_, .intro (htoken.kind_eq hkind) (htoken.text ▸ hfree), htoken.name⟩

theorem IsBody.carries : Carries R (Statement.Alike R) below.IsBody below'.IsBody := by
  intro tokens others statement h htokens
  cases h with
  | declaration hkeyword hmodifier hconst hname hsemicolon =>
      have hspan := cover_alike htokens hR (List.cons_ne_nil _ _)
      obtain ⟨_, inner, semicolon', rfl, hkeyword', hinner, hsemicolon'⟩ :=
        forall₂_of_bracketed htokens
      obtain ⟨name', hname', halike⟩ := IsName.carries hname hinner
      exact ⟨_, .declaration (hkeyword'.kind_eq hkeyword) (hkeyword'.text ▸ hmodifier) hconst hname'
        (hsemicolon'.kind_eq hsemicolon), .declaration halike hspan⟩
  | initialized hkeyword hmodifier hname hassign hslot hsemicolon =>
      have hspan := cover_alike htokens hR (List.cons_ne_nil _ _)
      obtain _ | ⟨hkeyword', hinner⟩ := htokens
      obtain ⟨first, rest, rfl, hfirst, hrest⟩ := forall₂_of_append hinner
      obtain _ | ⟨hassign', hrest⟩ := hrest
      obtain ⟨inner, semicolon', rfl, hinner, hsemicolon'⟩ := forall₂_of_concat hrest
      obtain ⟨name', hname', hnames⟩ := IsName.carries hname hfirst
      obtain ⟨slot', hslot', hslots⟩ := IsSlot.carries hR hbelow hopens (.refl _) hslot hinner
      exact ⟨_, .initialized (hkeyword'.kind_eq hkeyword) (hkeyword'.text ▸ hmodifier) hname'
        (hassign'.kind_eq hassign) hslot' (hsemicolon'.kind_eq hsemicolon),
        .initialized hnames hslots hspan⟩
  | function hkeyword hword hname hbracket hclosed hblock =>
      have hspan := cover_alike htokens hR (List.cons_ne_nil _ _)
      obtain _ | ⟨hkeyword', hinner⟩ := htokens
      obtain ⟨first, rest, rfl, hfirst, hrest⟩ := forall₂_of_append hinner
      obtain _ | ⟨hbracket', hrest⟩ := hrest
      obtain ⟨inner, block', rfl, hinner, hrest⟩ := forall₂_of_append hrest
      obtain ⟨name', hname', hnames⟩ := IsName.carries hname hfirst
      obtain ⟨parameters', hparameters', hformals⟩ := Closed.carries IsName.carries hclosed hinner
      obtain ⟨statements', hblock', hstatements⟩ := IsBlock.carries hbelow hblock hrest
      exact ⟨_, .function (hkeyword'.kind_eq hkeyword) (hkeyword'.text.trans hword) hname'
        (hbracket'.kind_eq hbracket) hparameters' hblock',
        .function hnames hformals hstatements hspan⟩
  | expression hstart hslot hsemicolon =>
      obtain ⟨inner, semicolon', rfl, hinner, hsemicolon'⟩ := forall₂_of_concat htokens
      obtain ⟨slot', hslot', halike⟩ := IsSlot.carries hR hbelow hopens (.refl _) hslot hinner
      exact ⟨_, .expression ((startsReserved_eq hinner).trans hstart) hslot'
        (hsemicolon'.kind_eq hsemicolon), .expression halike⟩

theorem IsStatement.carries :
    Carries R (Statement.Alike R) below.IsStatement below'.IsStatement := by
  rintro tokens others statement ⟨hbody, hsemicolons⟩ htokens
  obtain ⟨first, rest, rfl, hfirst, hrest⟩ := forall₂_of_append htokens
  obtain ⟨statement', hbody', halike⟩ := IsBody.carries hR hbelow hopens hbody hfirst
  exact ⟨statement', .intro hbody' (forall_kind_eq hrest hsemicolons), halike⟩

omit hbelow hopens in
/-- Derivations of every height are carried over, to any height that is not less. -/
theorem movable_ofHeight {height height' : Nat} (hle : height ≤ height') :
    (ofHeight height).Movable (ofHeight height') R := by
  induction height generalizing height' with
  | zero => exact ⟨fun _ _ _ _ h => h.elim, fun _ _ _ h => h.elim⟩
  | succ height ih =>
      cases height' with
      | zero => exact absurd hle (Nat.not_succ_le_zero height)
      | succ height' =>
          have hbelow := ih (Nat.le_of_succ_le_succ hle)
          have hopens := opens_ofHeight height
          exact ⟨fun hmode => IsExpression.carries hR hbelow hopens hmode,
            IsStatement.carries hR hbelow hopens⟩

omit hR hbelow hopens in
/-- What is derived with some height is derived with every greater one. -/
theorem expr_mono {height height' : Nat} {mode : Mode} {tokens : List Token} {expr : Expr}
    (hle : height ≤ height') (h : (ofHeight height).expr mode tokens expr) :
    (ofHeight height').expr mode tokens expr := by
  have hR : Covering Eq := ⟨by rintro _ _ _ _ rfl rfl; rfl⟩
  have halike : List.Forall₂ (Token.Alike Eq) tokens tokens :=
    List.forall₂_same.2 fun _ _ => ⟨rfl, rfl, rfl⟩
  obtain ⟨expr', hexpr, hsame⟩ := (movable_ofHeight hR hle).expr (.refl mode) h halike
  have hspans := hsame.mapSpans_eq (f := id) (g := id) fun _ _ h => h
  rw [Expr.mapSpans_id, Expr.mapSpans_id] at hspans
  exact hspans ▸ hexpr

end Phrases

end Scriptlet
