import Mathlib
import Scriptlet.Proofs.Defaults
import Scriptlet.Proofs.Enclosing
import Scriptlet.Proofs.Nesting

/-!
# The elements of a group

A comma behind an expression makes it the first element of a sequence, and what stands behind the
comma is derived as alone, but in the mode that the end of the first element has. In a group that is
the mode of a group again, and only behind the block of an arrow function it is the mode of what an
arrow yields, which takes no default values. So two texts that are groups alone are the elements of
one group, if it is not for a default value behind a block.
-/

namespace Scriptlet

variable {tokens more : List Token} {comma : Token}

/-! ## Elements, arrows and defaults -/

/-- Tokens of one element: no comma stands outside all brackets, and no arrow but before a block. -/
structure IsElement (tokens : List Token) : Prop where
  comma {before token after} : Outside tokens before token after → token.kind ≠ .comma
  arrow {before token after} : Outside tokens before token after → token.kind = .arrow →
    after.head?.map (·.kind) = some .openCurly

/-- The tokens start with a group that an arrow makes a list of parameters. -/
def StartsWithArrow (tokens : List Token) : Prop :=
  ∃ group arrow rest, tokens = group ++ arrow :: rest ∧ Enclosed group ∧ arrow.kind = .arrow

theorem IsElement.of_append {before : List Token} (h : IsElement (before ++ tokens))
    (hbefore : Matched before) : IsElement tokens :=
  ⟨fun houtside => h.comma (houtside.append hbefore),
    fun houtside => h.arrow (houtside.append hbefore)⟩

theorem IsElement.append (h : IsElement tokens) (htokens : Matched tokens)
    (hmore : IsElement more) : IsElement (tokens ++ more) := by
  constructor
  · intro before token after houtside
    rcases houtside.cases_append htokens with ⟨rest, hfirst, -⟩ | ⟨behind, -, hsecond⟩
    · exact h.comma hfirst
    · exact hmore.comma hsecond
  · intro before token after houtside hkind
    rcases houtside.cases_append htokens with ⟨rest, hfirst, rfl⟩ | ⟨behind, -, hsecond⟩
    · have hblock := h.arrow hfirst hkind
      cases rest with
      | nil => cases hblock
      | cons brace rest => exact hblock
    · exact hmore.arrow hsecond hkind

theorem Enclosed.isElement (h : Enclosed tokens) : IsElement tokens := by
  constructor <;> intro before token after houtside hkind <;>
    have hopens := houtside.opens_of_enclosed h <;> rw [hkind] at hopens <;> cases hopens

/-- A token that is no comma before an element. If it is an arrow, the element is a block. -/
theorem IsElement.cons {token : Token} (hplain : token.kind.isBracket = false)
    (hcomma : token.kind ≠ .comma)
    (harrow : token.kind = .arrow → tokens.head?.map (·.kind) = some .openCurly)
    (h : IsElement tokens) : IsElement (token :: tokens) := by
  constructor
  · rintro before next after ⟨hall, hbefore⟩
    rcases List.cons_eq_append_iff.1 hall with ⟨rfl, hnext⟩ | ⟨before, rfl, hrest⟩
    · obtain ⟨rfl, -⟩ := List.cons.inj hnext
      exact hcomma
    · exact h.comma ⟨hrest, hbefore.of_cons hplain⟩
  · rintro before next after ⟨hall, hbefore⟩ hkind
    rcases List.cons_eq_append_iff.1 hall with ⟨rfl, hnext⟩ | ⟨before, rfl, hrest⟩
    · obtain ⟨rfl, rfl⟩ := List.cons.inj hnext
      exact harrow hkind
    · exact h.arrow ⟨hrest, hbefore.of_cons hplain⟩ hkind

section

variable {others : List Token} (hkinds : others.map (·.kind) = tokens.map (·.kind))

include hkinds

theorem IsElement.of_kinds (h : IsElement tokens) : IsElement others := by
  constructor
  · intro _ _ _ houtside
    obtain ⟨_, _, _, houtside, -, hkind, -⟩ := houtside.of_kinds hkinds.symm
    exact hkind ▸ h.comma houtside
  · intro _ _ _ houtside harrow
    obtain ⟨_, _, _, houtside, -, hkind, hafter⟩ := houtside.of_kinds hkinds.symm
    have hblock := h.arrow houtside (hkind.trans harrow)
    rwa [← List.head?_map, hafter, List.head?_map] at hblock

theorem StartsWithArrow.of_kinds (h : StartsWithArrow tokens) : StartsWithArrow others := by
  obtain ⟨group, arrow, rest, rfl, hgroup, harrow⟩ := h
  rw [List.map_append, List.map_cons] at hkinds
  obtain ⟨group', behind, rfl, hfront, hbehind⟩ := List.map_eq_append_iff.1 hkinds
  obtain ⟨arrow', rest', rfl, hkind, -⟩ := List.map_eq_cons_iff.1 hbehind
  exact ⟨group', arrow', rest', rfl, hgroup.of_kinds hfront, hkind.trans harrow⟩

end

namespace Phrases

variable {below : Phrases} {mode : Mode} {start : Nat} {node expr right : Expr}

/-! ## A comma behind an element -/

section

variable (hmode : mode.stopAtComma = false) (hcomma : comma.kind = .comma)

include hmode hcomma

theorem IsEnd.append_comma (h : below.IsEnd mode start node tokens expr)
    (helement : IsElement tokens) (hright : below.expr mode more right) :
    below.IsEnd mode start node (tokens ++ comma :: more)
      (.sequence expr right (.between start (stopOf more))) := by
  cases h with
  | stop => exact .comma hmode hcomma hright
  | comma _ hother => exact absurd hother (helement.comma ⟨rfl, .nil⟩)

variable (hbelow : below.Matches)

include hbelow

theorem IsTail.append_comma (h : below.IsTail mode start node tokens expr)
    (helement : IsElement tokens) (hright : below.expr mode more right) :
    below.IsTail mode start node (tokens ++ comma :: more)
      (.sequence expr right (.between start (stopOf more))) := by
  induction h with
  | done hend => exact .done (hend.append_comma hmode hcomma helement hright)
  | link hlink _ ih =>
      rw [List.append_assoc]
      exact .link hlink (ih (helement.of_append (hlink.matched hbelow)))
  | fallback hallowed hassign hslot hend =>
      have hbefore := (hslot.matched hbelow).plain (by rw [hassign]; rfl)
      rw [List.cons_append, List.append_assoc]
      exact .fallback hallowed hassign hslot
        (hend.append_comma hmode hcomma (helement.of_append hbefore) hright)

/-- A comma and an expression behind an element make it the first one of a sequence. Behind the
block of an arrow function the rest is in the mode of what an arrow yields. -/
theorem IsExpression.append_comma (h : below.IsExpression mode tokens expr)
    (helement : IsElement tokens) (hright : below.expr mode more right)
    (hvalue : StartsWithArrow tokens → below.expr mode.value more right) :
    below.IsExpression mode (tokens ++ comma :: more)
      (.sequence expr right (.between (startOf tokens) (stopOf more))) := by
  cases h with
  | chain hprimary htail =>
      have helement' := helement.of_append (hprimary.matched hbelow)
      rw [startOf_append _ hprimary.opening.ne_nil, List.append_assoc]
      exact .chain hprimary (htail.append_comma hmode hcomma hbelow helement' hright)
  | unpacking hobject htarget hassign hslot hend =>
      have hbefore := (hobject.enclosed hbelow).matched.append
        ((hslot.matched hbelow).plain (by rw [hassign]; rfl))
      rw [← List.cons_append, ← List.append_assoc] at helement
      rw [startOf_append _ hobject.opening.ne_nil, List.append_assoc, List.cons_append,
        List.append_assoc]
      exact .unpacking hobject htarget hassign hslot
        (hend.append_comma hmode hcomma (helement.of_append hbefore) hright)
  | arrow hparameters harrow hbrace hslot =>
      exact absurd (helement.arrow ⟨rfl, (hparameters.enclosed hbelow).matched⟩ harrow) hbrace
  | arrowBlock hparameters harrow hblock htail =>
      have hbefore := (hparameters.enclosed hbelow).matched.append
        ((hblock.enclosed hbelow).matched.plain (by rw [harrow]; rfl))
      rw [← List.cons_append, ← List.append_assoc] at helement
      rw [startOf_append _ hparameters.opening.ne_nil, List.append_assoc, List.cons_append,
        List.append_assoc]
      exact .arrowBlock hparameters harrow hblock (htail.append_comma hmode hcomma hbelow
        (helement.of_append hbefore) (hvalue ⟨_, _, _, rfl, hparameters.enclosed hbelow, harrow⟩))

end

/-- No arrow goes on with an expression behind its first part. -/
theorem IsTail.ne_arrow {token : Token} (h : below.IsTail mode start node (token :: tokens) expr) :
    token.kind ≠ .arrow := by
  generalize hall : token :: tokens = all at h
  cases h with
  | done hend =>
      cases hend with
      | stop => cases hall
      | comma _ hcomma =>
          obtain ⟨rfl, -⟩ := List.cons.inj hall
          simp [hcomma]
  | link hlink =>
      cases hlink with
      | field hkind | index hkind | call hkind =>
          obtain ⟨rfl, -⟩ := List.cons.inj hall
          simp [hkind]
  | fallback _ hassign =>
      obtain ⟨rfl, -⟩ := List.cons.inj hall
      simp [hassign]

/-- An expression that starts with a group, an arrow and a curly bracket is an arrow function with a
block, behind which the expression goes on. -/
theorem IsExpression.exists_block {group rest : List Token} {arrow brace : Token}
    (h : below.IsExpression mode (group ++ arrow :: brace :: rest) expr) (hmatches : below.Matches)
    (hgroup : Enclosed group) (harrow : arrow.kind = .arrow) (hbrace : brace.kind = .openCurly) :
    ∃ block statements start node behind, below.IsBlock block statements ∧
      brace :: rest = block ++ behind ∧ below.IsTail mode.value start node behind expr := by
  generalize hall : group ++ arrow :: brace :: rest = all at h
  cases h with
  | chain hprimary htail =>
      rcases hprimary.single_or_enclosed hmatches with ⟨token, rfl, hplain⟩ | henclosed
      · cases hgroup with
        | intro hbracket =>
            obtain ⟨rfl, -⟩ := List.cons.inj hall
            simp [Kind.isBracket, hbracket] at hplain
      · obtain ⟨-, rfl⟩ := hgroup.append_inj henclosed hall
        exact absurd harrow htail.ne_arrow
  | unpacking hobject _ hassign =>
      obtain ⟨-, hsame⟩ := hgroup.append_inj (hobject.enclosed hmatches) hall
      obtain ⟨rfl, -⟩ := List.cons.inj hsame
      rw [hassign] at harrow
      cases harrow
  | arrow hparameters _ hno =>
      obtain ⟨-, hsame⟩ := hgroup.append_inj (hparameters.enclosed hmatches) hall
      obtain ⟨-, rfl⟩ := List.cons.inj hsame
      exact absurd (congrArg some hbrace) hno
  | arrowBlock hparameters _ hblock htail =>
      obtain ⟨-, hsame⟩ := hgroup.append_inj (hparameters.enclosed hmatches) hall
      obtain ⟨-, hbody⟩ := List.cons.inj hsame
      exact ⟨_, _, _, _, _, hblock, hbody, htail⟩

/-- Behind the block of an arrow function no element of a sequence has a default value. -/
theorem IsExpression.not_hasDefault_of_arrow
    (hbelow : ∀ {mode tokens expr}, below.expr mode tokens expr → mode.allowDefault = false →
      ¬ HasDefault tokens)
    (hmatches : below.Matches) (h : below.IsExpression mode (tokens ++ comma :: more) expr)
    (htokens : Matched tokens) (helement : IsElement tokens) (harrow : StartsWithArrow tokens)
    (hcomma : comma.kind = .comma) : ¬ HasDefault more := by
  obtain ⟨group, arrow, rest, rfl, hgroup, hkind⟩ := harrow
  obtain ⟨brace, rest, rfl, hbrace⟩ : ∃ brace behind, rest = brace :: behind ∧
      brace.kind = .openCurly := by
    have hblock := helement.arrow ⟨rfl, hgroup.matched⟩ hkind
    cases rest with
    | nil => cases hblock
    | cons brace behind => exact ⟨brace, behind, rfl, Option.some.inj hblock⟩
  have hfront : Matched (group ++ [arrow]) := hgroup.matched.append (.single (by rw [hkind]; rfl))
  rw [List.append_cons] at htokens
  rw [List.append_assoc] at h
  obtain ⟨block, _, _, _, behind, hblock, hall, htail⟩ :=
    h.exists_block hmatches hgroup hkind hbrace
  obtain ⟨last, -, rfl, hlast⟩ := (hblock.enclosed hmatches).exists_of_append
    (htokens.of_append hfront) (List.cons_ne_nil _ _) hall
  intro hdefault
  exact htail.not_hasDefault hbelow hmatches rfl (hdefault.behind_comma hlast hcomma)

/-! ## Derivations further on -/

section

variable {height : Nat} {left : Expr}

/-- Tokens so much further on derive the same as much further on. -/
theorem expr_shift (h : (ofHeight height).expr mode tokens expr) (distance : Nat) :
    (ofHeight height).expr mode (tokens.map (Token.shift distance))
      (expr.mapSpans (Span.shift distance)) := by
  have halike : List.Forall₂ (Token.Alike (Span.Moved 0 distance)) tokens
      (tokens.map (Token.shift distance)) :=
    List.forall₂_map_right_iff.2 (List.forall₂_same.2 fun _ _ => ⟨rfl, rfl, Nat.zero_le _, rfl⟩)
  obtain ⟨expr', hexpr, hsame⟩ := (movable_ofHeight (Span.covering_moved 0 distance)
    (Nat.le_refl height)).expr (.refl mode) h halike
  have hspans := hsame.mapSpans_eq (f := Span.shift distance) (g := id) fun _ _ h => h.2.symm
  rw [Expr.mapSpans_id] at hspans
  exact hspans ▸ hexpr

/-- The content of two groups with a comma between is the content of one. -/
theorem content_of_elements (hleft : (ofHeight height).expr .group tokens left)
    (hright : (ofHeight height).expr .group more right) (helement : IsElement tokens)
    (hno : ¬ (StartsWithArrow tokens ∧ HasDefault more)) (hcomma : comma.kind = .comma) :
    (ofHeight (height + 1)).expr .group (tokens ++ comma :: more)
      (.sequence left right (.between (startOf tokens) (stopOf more))) :=
  IsExpression.append_comma rfl hcomma (matches_ofHeight height)
    (expr_mono (Nat.le_succ height) hleft) helement hright fun harrow =>
      value_ofHeight height hright fun hdefault => hno ⟨harrow, hdefault⟩

end

end Phrases

/-! ## Two texts in a group -/

/-- The tokens of a text of so many characters, a comma, and the tokens of another text behind a
blank. -/
def joined (found : List Token) (length : Nat) (others : List Token) : List Token :=
  found ++ .mark .comma ',' length :: others.map (Token.shift (length + 2))

section

variable {found others : List Token} {length : Nat}

/-- One character further on, the tokens of both texts with a comma between. -/
theorem map_joined (found : List Token) (length : Nat) (others : List Token) :
    (joined found length others).map (Token.shift 1) =
      found.map (Token.shift 1) ++ .mark .comma ',' (length + 1) ::
        (others.map (Token.shift 1)).map (Token.shift (length + 2)) := by
  have hcomm :
      Token.shift 1 ∘ Token.shift (length + 2) = Token.shift (length + 2) ∘ Token.shift 1 := by
    funext token
    simp [Token.shift, Span.shift, Nat.add_right_comm]
  rw [joined, List.map_append, List.map_cons, List.map_map, List.map_map, hcomm]
  rfl

theorem Matched.joined (h : Matched found) (hothers : Matched others) (length : Nat) :
    Matched (joined found length others) :=
  h.append (.plain rfl (hothers.of_kinds (map_kind_shift others (length + 2))))

end

section

variable {first second : List Char} {found others : List Token} {there finish : Place}

/-- A text, a comma and a blank, and another text are read as the tokens of both with a comma
between them, where the first text does not end with an operator. -/
theorem Reads.start_joined (h : Reads (.start first) found there) (hended : there.Ended)
    (hending : Phrases.Ending found) (hsecond : Reads (.start second) others finish)
    (hne : others ≠ []) :
    Reads (.start (first ++ ',' :: ' ' :: second)) (joined found first.length others)
      (finish.shift (first.length + 2)) := by
  have hlast : ∀ last ∈ found.getLast?, last.kind.isOperator = false := by
    obtain ⟨initial, last, rfl, hkind⟩ := hending
    intro token hmem
    rw [List.getLast?_concat] at hmem
    cases hmem
    exact hkind
  have hfirst := h.start_before (c := ',') hended rfl (by decide) (fun _ => hlast) (' ' :: second)
  rw [Cursor.skipBlanks_cons rfl] at hfirst
  have hstands : (Lexeme.spelled .comma [',']).Stands [','] (' ' :: second) :=
    .operator (List.cons_ne_nil _ _) (.of_stop (List.forall_mem_singleton.2 rfl) rfl second) rfl
  let here : Place := ⟨⟨first.length, ',' :: ' ' :: second⟩, there.lastStop⟩
  have hrest : here.cursor.rest = [','] ++ ' ' :: second := rfl
  refine hfirst.append (.cons (Place.next_of_stands hrest hstands)
    ((hsecond.shift (first.length + 2)).of_cursor_eq (by simpa using hne) ?_))
  have hpast := Place.past_eq hrest .comma (String.ofList [','])
  have hblank : Cursor.skipBlanks ⟨first.length + 1, ' ' :: second⟩ =
      Cursor.skipBlanks ⟨0 + (first.length + 2), second⟩ := by
    rw [Nat.zero_add]
    have hnone : Text.dropBlanks [' '] = [] := rfl
    exact skipBlanks_append_of_blank hnone (first.length + 1) second
  exact (congrArg Place.cursor hpast).trans
    (hblank.trans (Cursor.skipBlanks_shift ⟨0, second⟩ (first.length + 2)))

end

/-- A group and a semicolon are a program of one expression, two levels above what the group
holds. -/
theorem Derives.of_group {height length : Nat} {found : List Token} {content : Expr}
    (h : (Phrases.ofHeight height).expr .group (found.map (Token.shift 1)) content) :
    Derives (height + 2) (grouped found length ++ [.mark .semicolon ';' (length + 2)])
      [.expression ⟨content, ⟨0, length + 2⟩⟩] := by
  have hgroup : (Phrases.ofHeight (height + 1)).IsSlot .plain (grouped found length)
      ⟨content, cover (grouped found length)⟩ :=
    .intro (Phrases.IsPrimary.group rfl h rfl).isExpression
  rw [cover_grouped] at hgroup
  exact .single (Phrases.IsBody.expression rfl hgroup rfl).isStatement

theorem Expr.elements_mapSpans (f : Span → Span) :
    ∀ expr : Expr, (expr.mapSpans f).elements = expr.elements.map (Expr.mapSpans f)
  | .sequence left right _ => by
      simp only [mapSpans, elements, List.map_cons, elements_mapSpans f right]
  | .name _ | .string _ _ | .number _ _ | .field _ _ _ | .index _ _ _ | .call _ _ _ | .object _ _
  | .assign _ _ _ | .arrow _ _ _ => by simp [mapSpans, elements]

namespace Program

/-- Statements that the tokens of a text derive are its program, or the bound on nesting stops the
parse. -/
theorem parse_ok_or_tooDeep {source : String} {height : Nat} {found : List Token} {there : Place}
    {statements : List Statement} (hreads : Reads (.start source.toList) found there)
    (hended : there.Ended) (h : Derives height found statements) :
    (∃ error, Program.parse source = .error error ∧ error.kind = .unsupported ∧
        error.message = (Cause.tooDeep nestingLimit).message) ∨
      Program.parse source = .ok ⟨statements, ⟨0, source.toList.length⟩⟩ := by
  rcases parseWithin_ok_or_tooDeep nestingLimit
    (parseWithin_eq_ok_iff.2 ⟨found, hreads.tokens_eq_ok hended, h⟩) with
    hrun | ⟨failure, stop, hrun, hcause⟩
  · exact .inr (Program.parse_eq_ok_iff_run.2 ⟨rfl, hrun⟩)
  · refine .inl ⟨_, Program.parse_eq_error_iff.2 ⟨failure, stop, hrun, rfl⟩, ?_, ?_⟩
    · show failure.cause.kind = _
      rw [hcause]
      rfl
    · show failure.cause.message = _
      rw [hcause]

section

variable {text : String} {found others : List Token} {length : Nat} {here : Place}
  (hreads : Reads (.start text.toList) (joined found length others) here) (hended : here.Ended)

include hreads hended

/-- What two contents of groups are the elements of one group, but for a default value behind a
block. -/
theorem parse_joined {left right : Expr}
    (hleft : (Phrases.ofHeight (nestingLimit - 2)).expr .group (found.map (Token.shift 1)) left)
    (hright : (Phrases.ofHeight (nestingLimit - 2)).expr .group (others.map (Token.shift 1)) right)
    (helement : IsElement found) (hno : ¬ (StartsWithArrow found ∧ HasDefault others)) :
    (∃ error, Program.parse ("(" ++ text ++ ");") = .error error ∧ error.kind = .unsupported ∧
        error.message = (Cause.tooDeep nestingLimit).message) ∨
      ∃ slot span, Program.parse ("(" ++ text ++ ");") = .ok ⟨[.expression slot], span⟩ ∧
        slot.body.elements =
          left :: right.elements.map (Expr.mapSpans (Span.shift (length + 2))) := by
  have hno' : ¬ (StartsWithArrow (found.map (Token.shift 1)) ∧
      HasDefault ((others.map (Token.shift 1)).map (Token.shift (length + 2)))) := by
    rintro ⟨harrow, hdefault⟩
    refine hno ⟨harrow.of_kinds (map_kind_shift found 1).symm, hdefault.of_kinds ?_⟩
    rw [map_kind_shift, map_kind_shift]
  have hcomma : (Token.mark .comma ',' (length + 1)).kind = .comma := rfl
  have hcontent := Phrases.content_of_elements hleft (Phrases.expr_shift hright (length + 2))
    (helement.of_kinds (map_kind_shift found 1)) hno' hcomma
  rw [← map_joined] at hcontent
  have hwhole := hreads.start_statement hended
  have hchars : ("(" ++ text ++ ");").toList = '(' :: (text.toList ++ [')', ';']) := by simp
  rw [← hchars] at hwhole
  rcases parse_ok_or_tooDeep hwhole (Place.ended_iff.2 rfl) (.of_group hcontent) with herror | hok
  · exact .inl herror
  · refine .inr ⟨_, _, hok, ?_⟩
    rw [← Expr.elements_mapSpans]
    rfl

/-- A default value behind a block is refused. -/
theorem parse_joined_ne_ok (hmatched : Matched found) (hmatched' : Matched others)
    (helement : IsElement found) (harrow : StartsWithArrow found) (hdefault : HasDefault others)
    (program : Program) : Program.parse ("(" ++ text ++ ");") ≠ .ok program := by
  intro hok
  obtain ⟨slot, -, hcontent⟩ :=
    Program.content_of_parse hreads hended (hmatched.joined hmatched' length) hok
  rw [map_joined] at hcontent
  have hkinds := map_kind_shift found 1
  refine Phrases.IsExpression.not_hasDefault_of_arrow
    (Phrases.not_hasDefault_ofHeight (nestingLimit - 3)) (Phrases.matches_ofHeight _) hcontent
    (hmatched.of_kinds hkinds) (helement.of_kinds hkinds) (harrow.of_kinds hkinds) rfl
    (hdefault.of_kinds ?_)
  rw [map_kind_shift, map_kind_shift]

end

set_option maxRecDepth 4000 in
/-- An arrow function with an empty block is one element, and a group alone. -/
theorem exists_emptyArrow :
    ∃ found left, Scriptlet.tokens "() => \x7b\x7d" = .ok found ∧ Matched found ∧ IsElement found ∧
      Program.parse ("(" ++ "() => \x7b\x7d" ++ ");") = .ok ⟨[.expression left], ⟨0, 11⟩⟩ := by
  let group : List Token := [⟨.openRound, "(", ⟨0, 1⟩⟩, ⟨.closeRound, ")", ⟨1, 1⟩⟩]
  let block : List Token := [⟨.openCurly, "\x7b", ⟨6, 1⟩⟩, ⟨.closeCurly, "\x7d", ⟨7, 1⟩⟩]
  let left : Slot := ⟨.arrow ⟨[], ⟨1, 2⟩⟩ (.block [] ⟨7, 2⟩) ⟨1, 8⟩, ⟨0, 10⟩⟩
  have hfound : Scriptlet.tokens "() => \x7b\x7d" =
      .ok (group ++ ⟨.arrow, "=>", ⟨3, 2⟩⟩ :: block) := by cbv
  have hgroup : Enclosed group := .intro rfl .nil
  have hblock : Enclosed block := .intro rfl .nil
  exact ⟨_, left, hfound, hgroup.matched.append (.plain rfl hblock.matched),
    hgroup.isElement.append hgroup.matched
      (.cons rfl (by decide) (fun _ => rfl) hblock.isElement), by cbv⟩

/-- Two texts that are groups alone are the elements of one group, with a comma between them, where
the first has no comma outside all brackets and no arrow but before a block; but the bound on
nesting may stop the parse. This fails where the first text starts with an arrow function and the
second has a default value: behind the block of an arrow function a default value is refused. -/
theorem parse_elements {first second : String} {found others : List Token} {left right : Slot}
    {span span' : Span} (hfound : Scriptlet.tokens first = .ok found)
    (hothers : Scriptlet.tokens second = .ok others) (hmatched : Matched found)
    (hmatched' : Matched others) (helement : IsElement found)
    (hfirst : Program.parse ("(" ++ first ++ ");") = .ok ⟨[.expression left], span⟩)
    (hsecond : Program.parse ("(" ++ second ++ ");") = .ok ⟨[.expression right], span'⟩) :
    (¬ (StartsWithArrow found ∧ HasDefault others) →
      (∃ error, Program.parse ("(" ++ first ++ ", " ++ second ++ ");") = .error error ∧
        error.kind = .unsupported ∧ error.message = (Cause.tooDeep nestingLimit).message) ∨
      ∃ slot span, Program.parse ("(" ++ first ++ ", " ++ second ++ ");") =
          .ok ⟨[.expression slot], span⟩ ∧
        slot.body.elements = left.body ::
          right.body.elements.map (Expr.mapSpans (Span.shift (first.length + 2)))) ∧
    (StartsWithArrow found ∧ HasDefault others →
      ∀ program, Program.parse ("(" ++ first ++ ", " ++ second ++ ");") ≠ .ok program) := by
  obtain ⟨there, hreads, hended, hleft⟩ := Program.exists_content hfirst hfound hmatched
  obtain ⟨finish, hreads', hended', hright⟩ := Program.exists_content hsecond hothers hmatched'
  have hne : others ≠ [] := by
    rintro rfl
    exact ((Phrases.opens_ofHeight _).expr hright).ne_nil rfl
  have hending := (Phrases.ending_ofHeight _ hleft).of_kinds (map_kind_shift found 1).symm
  have hjoined := hreads.start_joined hended hending hreads' hne
  have hfinish : (finish.shift (first.toList.length + 2)).Ended :=
    Place.ended_iff.2 (Place.ended_iff.1 hended' :)
  have hchars : (first ++ ", " ++ second).toList =
      first.toList ++ ',' :: ' ' :: second.toList := by simp
  have hsource : "(" ++ first ++ ", " ++ second ++ ");" =
      "(" ++ (first ++ ", " ++ second) ++ ");" := by simp [String.append_assoc]
  rw [hsource, ← String.length_toList]
  rw [← hchars] at hjoined
  exact ⟨fun hno => parse_joined hjoined hfinish hleft hright helement hno,
    fun ⟨harrow, hdefault⟩ =>
      parse_joined_ne_ok hjoined hfinish hmatched hmatched' helement harrow hdefault⟩

set_option maxRecDepth 4000 in
/-- Names behind the block of an arrow function. -/
theorem parse_elements_names :
    ∃ found others left right, Scriptlet.tokens "() => \x7b\x7d" = .ok found ∧
      Scriptlet.tokens "b, c" = .ok others ∧ Matched found ∧ Matched others ∧ IsElement found ∧
      Program.parse ("(" ++ "() => \x7b\x7d" ++ ");") = .ok ⟨[.expression left], ⟨0, 11⟩⟩ ∧
      Program.parse ("(" ++ "b, c" ++ ");") = .ok ⟨[.expression right], ⟨0, 7⟩⟩ ∧
      ¬ (StartsWithArrow found ∧ HasDefault others) ∧
      ((∃ error, Program.parse ("(" ++ "() => \x7b\x7d" ++ ", " ++ "b, c" ++ ");") = .error error ∧
        error.kind = .unsupported ∧ error.message = (Cause.tooDeep nestingLimit).message) ∨
      ∃ slot span, Program.parse ("(" ++ "() => \x7b\x7d" ++ ", " ++ "b, c" ++ ");") =
          .ok ⟨[.expression slot], span⟩ ∧
        slot.body.elements = left.body ::
          right.body.elements.map (Expr.mapSpans (Span.shift ("() => \x7b\x7d".length + 2)))) := by
  let names : List Token := [⟨.word, "b", ⟨0, 1⟩⟩, ⟨.comma, ",", ⟨1, 1⟩⟩, ⟨.word, "c", ⟨3, 1⟩⟩]
  have hothers : Scriptlet.tokens "b, c" = .ok names := by cbv
  have hmatched' : Matched names := .plain rfl (.plain rfl (.single rfl))
  have hnone : ¬ HasDefault names := not_hasDefault_cons rfl (by decide)
    (not_hasDefault_cons rfl (by decide) (not_hasDefault_single (by decide)))
  have hsecond : Program.parse ("(" ++ "b, c" ++ ");") = .ok ⟨[.expression ⟨.sequence
      (.name ⟨"b", ⟨1, 1⟩⟩) (.name ⟨"c", ⟨4, 1⟩⟩) ⟨1, 4⟩, ⟨0, 6⟩⟩], ⟨0, 7⟩⟩ := by cbv
  obtain ⟨found, left, hfound, hmatched, helement, hfirst⟩ := exists_emptyArrow
  exact ⟨found, names, left, _, hfound, hothers, hmatched, hmatched', helement, hfirst, hsecond,
    fun h => hnone h.2,
    (Program.parse_elements hfound hothers hmatched hmatched' helement hfirst hsecond).1
      fun h => hnone h.2⟩

set_option maxRecDepth 4000 in
/-- A default value behind the block of an arrow function is refused, though both texts are groups
alone. -/
theorem parse_elements_default :
    ∃ found others left right, Scriptlet.tokens "() => \x7b\x7d" = .ok found ∧
      Scriptlet.tokens "a = 1" = .ok others ∧ Matched found ∧ Matched others ∧ IsElement found ∧
      Program.parse ("(" ++ "() => \x7b\x7d" ++ ");") = .ok ⟨[.expression left], ⟨0, 11⟩⟩ ∧
      Program.parse ("(" ++ "a = 1" ++ ");") = .ok ⟨[.expression right], ⟨0, 8⟩⟩ ∧
      ∃ error, Program.parse ("(" ++ "() => \x7b\x7d" ++ ", " ++ "a = 1" ++ ");") =
          .error error ∧
        error.kind = .unexpectedToken ∧ error.offset = 13 := by
  let fallback : List Token := [⟨.word, "a", ⟨0, 1⟩⟩, ⟨.assign, "=", ⟨2, 1⟩⟩,
    ⟨.number, "1", ⟨4, 1⟩⟩]
  have hothers : Scriptlet.tokens "a = 1" = .ok fallback := by cbv
  have hmatched' : Matched fallback := .plain rfl (.plain rfl (.single rfl))
  have hsecond : Program.parse ("(" ++ "a = 1" ++ ");") = .ok ⟨[.expression ⟨.assign
      (.name ⟨"a", ⟨1, 1⟩⟩) (.bare (.number "1" ⟨5, 1⟩)) ⟨1, 5⟩, ⟨0, 7⟩⟩], ⟨0, 8⟩⟩ := by cbv
  have hrefused : ((Program.parse ("(" ++ "() => \x7b\x7d" ++ ", " ++ "a = 1" ++ ");")).map
      fun _ => ()).mapError (fun error => (error.kind, error.offset)) =
        .error (.unexpectedToken, 13) := by decide +kernel
  obtain ⟨found, left, hfound, hmatched, helement, hfirst⟩ := exists_emptyArrow
  refine ⟨found, fallback, left, _, hfound, hothers, hmatched, hmatched', helement, hfirst, hsecond,
    ?_⟩
  generalize Program.parse ("(" ++ "() => \x7b\x7d" ++ ", " ++ "a = 1" ++ ");") = result
    at hrefused ⊢
  cases result with
  | ok => cases hrefused
  | error error =>
      obtain ⟨hkind, hoffset⟩ := Prod.mk.inj (Except.error.inj hrefused)
      exact ⟨error, rfl, hkind, hoffset⟩

end Program

end Scriptlet
