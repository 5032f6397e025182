import Scriptlet.Proofs.Matching

/-!
# Default values in sequences

In a group a name may be followed by `=` and a default value. So a `=` that stands outside all
brackets gives a default value, but for one behind an object literal, which makes this a pattern.
An expression without a default value is the same in a mode that allows none, and in such a mode no
expression has one.
-/

namespace Scriptlet

variable {tokens more : List Token}

/-- Outside all brackets a `=` stands that is not behind a pattern. It gives a default value. -/
def HasDefault (tokens : List Token) : Prop :=
  ∃ before token after, Outside tokens before token after ∧ token.kind = .assign ∧
    before.getLast?.map (·.kind) ≠ some .closeCurly

theorem HasDefault.of_kinds {others : List Token} (h : HasDefault tokens)
    (hkinds : others.map (·.kind) = tokens.map (·.kind)) : HasDefault others := by
  obtain ⟨before, assign, after, houtside, hassign, hlast⟩ := h
  obtain ⟨before', assign', after', houtside', hbefore, hkind, -⟩ := houtside.of_kinds hkinds
  refine ⟨before', assign', after', houtside', hkind.trans hassign, ?_⟩
  rwa [← List.getLast?_map, hbefore, List.getLast?_map]

/-- A default value behind a comma. -/
theorem HasDefault.behind_comma {before : List Token} {comma : Token} (h : HasDefault more)
    (hbefore : Matched before) (hcomma : comma.kind = .comma) :
    HasDefault (before ++ comma :: more) := by
  obtain ⟨front, assign, after, houtside, hassign, hlast⟩ := h
  have hcomma' : Matched (before ++ [comma]) := hbefore.append (.single (by rw [hcomma]; rfl))
  have hall := houtside.append hcomma'
  rw [List.append_assoc, List.singleton_append] at hall
  refine ⟨_, assign, after, hall, hassign, ?_⟩
  rw [List.getLast?_append, List.getLast?_concat]
  cases hfront : front.getLast? with
  | none => simp [hcomma]
  | some last => simpa [hfront] using hlast

namespace Phrases

variable {below : Phrases} {mode : Mode} {start : Nat} {node expr : Expr}

/-! ## Expressions without default values -/

theorem IsPrimary.last_of_name {name : Name} (h : below.IsPrimary tokens (.name name)) :
    tokens.getLast?.map (·.kind) ≠ some .closeCurly := by
  cases h with
  | name hkind => simp [hkind]
  | @group bracket inner _ close _ _ hclose =>
      rw [← List.cons_append, List.getLast?_concat]
      simp [hclose]
  | object hobject => cases hobject

section

variable {previous : List Token}
  (hbelow : ∀ {mode tokens expr}, below.expr mode tokens expr → ¬ HasDefault tokens →
    below.expr mode.value tokens expr)

include hbelow

theorem IsEnd.value (h : below.IsEnd mode start node tokens expr) (hprevious : Matched previous)
    (hno : ¬ HasDefault (previous ++ tokens)) :
    below.IsEnd mode.value start node tokens expr := by
  cases h with
  | stop => exact .stop
  | comma hallowed hcomma hright =>
      exact .comma hallowed hcomma
        (hbelow hright fun hdefault => hno (hdefault.behind_comma hprevious hcomma))

variable (hmatches : below.Matches)

include hmatches

/-- Where a name is not behind a pattern, `=` gives it a default value. -/
theorem IsTail.value (h : below.IsTail mode start node tokens expr) (hprevious : Matched previous)
    (hname : ∀ name, node = .name name → previous.getLast?.map (·.kind) ≠ some .closeCurly)
    (hno : ¬ HasDefault (previous ++ tokens)) :
    below.IsTail mode.value start node tokens expr := by
  induction h generalizing previous with
  | done hend => exact .done (hend.value hbelow hprevious hno)
  | link hlink _ ih =>
      rw [← List.append_assoc] at hno
      refine .link hlink (ih (hprevious.append (hlink.matched hmatches)) ?_ hno)
      rintro name rfl
      cases hlink
  | fallback _ hassign =>
      exact absurd ⟨previous, _, _, ⟨rfl, hprevious⟩, hassign, hname _ rfl⟩ hno

/-- An expression without a default value is one where none is allowed. -/
theorem IsExpression.value (h : below.IsExpression mode tokens expr) (hno : ¬ HasDefault tokens) :
    below.IsExpression mode.value tokens expr := by
  cases h with
  | chain hprimary htail =>
      refine .chain hprimary (htail.value hbelow hmatches (hprimary.matched hmatches) ?_ hno)
      rintro name rfl
      exact hprimary.last_of_name
  | unpacking hobject htarget hassign hslot hend =>
      have hbefore := (hobject.enclosed hmatches).matched.append
        ((hslot.matched hmatches).plain (by rw [hassign]; rfl))
      rw [← List.cons_append, ← List.append_assoc] at hno
      exact .unpacking hobject htarget hassign hslot (hend.value hbelow hbefore hno)
  | arrow hparameters harrow hbrace hslot => exact .arrow hparameters harrow hbrace hslot
  | arrowBlock hparameters harrow hblock htail =>
      exact .arrowBlock hparameters harrow hblock htail

end

theorem value_ofHeight (height : Nat) : (ofHeight height).expr mode tokens expr →
    ¬ HasDefault tokens → (ofHeight height).expr mode.value tokens expr := by
  induction height generalizing mode tokens expr with
  | zero => exact False.elim
  | succ height ih => exact IsExpression.value ih (matches_ofHeight height)

end Phrases

/-! ## Where no default value is allowed -/

section

variable {token : Token}

theorem not_hasDefault_nil : ¬ HasDefault [] := by
  rintro ⟨before, token, after, ⟨hnil, -⟩, -⟩
  simp at hnil

theorem not_hasDefault_single (h : token.kind ≠ .assign) : ¬ HasDefault [token] := by
  rintro ⟨before, assign, after, ⟨hall, -⟩, hassign, -⟩
  obtain rfl : assign = token := List.mem_singleton.1 (hall ▸ by simp)
  exact h hassign

theorem Enclosed.not_hasDefault (h : Enclosed tokens) : ¬ HasDefault tokens := by
  rintro ⟨before, assign, after, houtside, hassign, -⟩
  have hopens := houtside.opens_of_enclosed h
  rw [hassign] at hopens
  cases hopens

/-- Some tokens without a default value behind others without one. -/
theorem not_hasDefault_append (h : ¬ HasDefault tokens) (htokens : Matched tokens)
    (hmore : ¬ HasDefault more) : ¬ HasDefault (tokens ++ more) := by
  rintro ⟨before, assign, after, houtside, hassign, hlast⟩
  rcases houtside.cases_append htokens with ⟨rest, hfirst, -⟩ | ⟨behind, rfl, hsecond⟩
  · exact h ⟨before, assign, rest, hfirst, hassign, hlast⟩
  · refine hmore ⟨behind, assign, after, hsecond, hassign, fun hclose => hlast ?_⟩
    rw [List.getLast?_append]
    cases hbehind : behind.getLast? with
    | none => simp [hbehind] at hclose
    | some last => simpa [hbehind] using hclose

theorem not_hasDefault_cons (hkind : token.kind.isBracket = false) (h : token.kind ≠ .assign)
    (hmore : ¬ HasDefault more) : ¬ HasDefault (token :: more) :=
  not_hasDefault_append (not_hasDefault_single h) (.single hkind) hmore

end

namespace Phrases

variable {below : Phrases} {mode : Mode} {start : Nat} {node expr : Expr}

/-- A `=` behind an object literal gives no default value. -/
theorem IsObject.not_hasDefault {assign : Token} (h : below.IsObject tokens expr)
    (hmatches : below.Matches) : ¬ HasDefault (tokens ++ [assign]) := by
  rintro ⟨before, token, after, houtside, htoken, hlast⟩
  rcases houtside.cases_append (h.enclosed hmatches).matched with
    ⟨rest, hfirst, -⟩ | ⟨behind, rfl, hall, -⟩
  · exact (h.enclosed hmatches).not_hasDefault ⟨before, token, rest, hfirst, htoken, hlast⟩
  · obtain rfl : behind = [] := by
      cases behind with
      | nil => rfl
      | cons _ behind => simp at hall
    cases h with
    | @intro brace inner _ close _ _ hclose =>
        refine hlast ?_
        rw [List.append_nil, ← List.cons_append, List.getLast?_concat]
        exact congrArg some hclose

theorem IsPrimary.not_hasDefault (h : below.IsPrimary tokens node) (hmatches : below.Matches) :
    ¬ HasDefault tokens := by
  cases h with
  | name hkind | string hkind | number hkind =>
      exact not_hasDefault_single (by rw [hkind]; decide)
  | group hbracket hcontent hclose =>
      exact (Enclosed.intro (by rw [hbracket, hclose]; rfl) (hmatches.expr hcontent)).not_hasDefault
  | object hobject => exact (hobject.enclosed hmatches).not_hasDefault

theorem IsLink.not_hasDefault {next : Expr} (h : below.IsLink start node tokens next)
    (hmatches : below.Matches) : ¬ HasDefault tokens := by
  cases h with
  | field hkind => exact not_hasDefault_single (by rw [hkind]; decide)
  | index hbracket hslot hclose =>
      exact (Enclosed.intro (by rw [hbracket, hclose]; rfl) (hslot.matched hmatches)).not_hasDefault
  | call hbracket hclosed =>
      obtain ⟨inner, close, rfl, hinner, hclose⟩ :=
        hclosed.matched fun hslot => hslot.matched hmatches
      exact (Enclosed.intro (by rw [hbracket, hclose]; rfl) hinner).not_hasDefault

section

variable (hbelow : ∀ {mode tokens expr}, below.expr mode tokens expr → mode.allowDefault = false →
  ¬ HasDefault tokens)

include hbelow

theorem IsSlot.not_hasDefault {slot : Slot} (h : below.IsSlot mode tokens slot)
    (hmode : mode.allowDefault = false) : ¬ HasDefault tokens := by
  cases h with
  | intro hexpr => exact hbelow hexpr hmode

theorem IsEnd.not_hasDefault (h : below.IsEnd mode start node tokens expr)
    (hmode : mode.allowDefault = false) : ¬ HasDefault tokens := by
  cases h with
  | stop => exact not_hasDefault_nil
  | comma _ hcomma hright =>
      exact not_hasDefault_cons (by rw [hcomma]; rfl) (by rw [hcomma]; decide) (hbelow hright hmode)

variable (hmatches : below.Matches)

include hmatches

theorem IsTail.not_hasDefault (h : below.IsTail mode start node tokens expr)
    (hmode : mode.allowDefault = false) : ¬ HasDefault tokens := by
  induction h with
  | done hend => exact hend.not_hasDefault hbelow hmode
  | link hlink _ ih =>
      exact not_hasDefault_append (hlink.not_hasDefault hmatches) (hlink.matched hmatches) ih
  | fallback hallowed => exact absurd (hmode.symm.trans hallowed) Bool.false_ne_true

theorem IsExpression.not_hasDefault (h : below.IsExpression mode tokens expr)
    (hmode : mode.allowDefault = false) : ¬ HasDefault tokens := by
  cases h with
  | chain hprimary htail =>
      exact not_hasDefault_append (hprimary.not_hasDefault hmatches) (hprimary.matched hmatches)
        (htail.not_hasDefault hbelow hmatches hmode)
  | unpacking hobject _ hassign hslot hend =>
      have hmore := not_hasDefault_append (hslot.not_hasDefault hbelow rfl)
        (hslot.matched hmatches) (hend.not_hasDefault hbelow hmode)
      have hbefore := (hobject.enclosed hmatches).matched.append (.single (by rw [hassign]; rfl))
      rw [List.append_cons]
      exact not_hasDefault_append (hobject.not_hasDefault hmatches) hbefore hmore
  | arrow hparameters harrow _ hslot =>
      exact not_hasDefault_append (hparameters.enclosed hmatches).not_hasDefault
        (hparameters.enclosed hmatches).matched (not_hasDefault_cons (by rw [harrow]; rfl)
          (by rw [harrow]; decide) (hslot.not_hasDefault hbelow rfl))
  | arrowBlock hparameters harrow hblock htail =>
      have hmore := not_hasDefault_append (hblock.enclosed hmatches).not_hasDefault
        (hblock.enclosed hmatches).matched (htail.not_hasDefault hbelow hmatches rfl)
      exact not_hasDefault_append (hparameters.enclosed hmatches).not_hasDefault
        (hparameters.enclosed hmatches).matched (not_hasDefault_cons (by rw [harrow]; rfl)
          (by rw [harrow]; decide) hmore)

end

theorem not_hasDefault_ofHeight (height : Nat) : (ofHeight height).expr mode tokens expr →
    mode.allowDefault = false → ¬ HasDefault tokens := by
  induction height generalizing mode tokens expr with
  | zero => exact False.elim
  | succ height ih => exact IsExpression.not_hasDefault ih (matches_ofHeight height)

end Phrases

end Scriptlet
