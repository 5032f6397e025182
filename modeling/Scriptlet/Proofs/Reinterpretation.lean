import Mathlib
import Scriptlet.Proofs.Concatenation
import Scriptlet.Proofs.Enclosing

/-!
# What a later token makes of a group and of an object literal

A group and an object literal are parsed before the token behind them tells what they were. So that
token makes of them what reading their expression again makes of it: behind a group, an arrow gives
the parameters that the group stands for, and behind an object literal `=` gives its pattern. Where
reading again meets a part that binds nothing, the text is refused at this part.
-/

namespace Scriptlet

open Scriptlet.Parser Spelling Text

variable {here middle there : Place} {token : Token} {tokens : List Token}

/-! ## What stands behind the brackets -/

/-- An operator, a name and a semicolon. -/
def reading (kind : Kind) (run : List Char) (offset : Nat) : List Token :=
  [⟨kind, String.ofList run, ⟨offset, run.length⟩⟩, ⟨.word, "x", ⟨offset + run.length + 1, 1⟩⟩,
    .mark .semicolon ';' (offset + run.length + 2)]

/-- An operator, a name and a semicolon are read to the end of the text. -/
theorem reads_reading {run : List Char} (kind : Kind) (hne : run ≠ [])
    (hrun : ∀ c ∈ run, isOperatorChar c = true)
    (hkind : operatorKind? (String.ofList run) = some kind) (offset stop : Nat) :
    Reads ⟨⟨offset, run ++ [' ', 'x', ';']⟩, stop⟩ (reading kind run offset)
      ⟨⟨offset + run.length + 3, []⟩, offset + run.length + 3⟩ := by
  have hblank : IsRun isBlank [' '] ['x', ';'] :=
    .of_stop (List.forall_mem_singleton.2 rfl) rfl [';']
  have hoperator : (Lexeme.spelled kind run).Stands run ([' '] ++ ['x', ';']) :=
    .operator hne (.of_stop hrun rfl ['x', ';']) hkind
  have hname : (Lexeme.spelled .word ['x']).Stands ['x'] ([] ++ [';']) :=
    .word rfl (.of_stop (List.forall_mem_nil _) rfl [])
  have hnone : IsRun isBlank [] [';'] := .of_stop (List.forall_mem_nil _) rfl []
  have hsemicolon : (Lexeme.spelled .semicolon [';']).Stands [';'] ([] ++ []) := .punctuation rfl
  exact .cons_of_stands hoperator hblank (.cons_of_stands hname hnone
    (.cons_of_stands hsemicolon ⟨by simp, by simp⟩ (.nil _)))

/-! ## What turned out to bind something -/

namespace Phrases

variable {height : Nat} {mode : Mode} {expr : Expr}

/-- A name is a slot. -/
theorem isSlot_name (height : Nat) (mode : Mode) (text : String) (span : Span) :
    (ofHeight (height + 1)).IsSlot mode [⟨.word, text, span⟩] (.bare (.name ⟨text, span⟩)) := by
  have hname : (ofHeight height).IsPrimary [⟨.word, text, span⟩] (.name ⟨text, span⟩) := .name rfl
  have hslot : (ofHeight (height + 1)).IsSlot mode [⟨.word, text, span⟩] _ :=
    .intro hname.isExpression
  rwa [cover_singleton] at hslot

/-- An object literal starts with its first token. -/
theorem IsObject.startOf_eq {below : Phrases} (h : below.IsObject tokens expr) :
    startOf tokens = expr.span.offset := by
  cases h with
  | intro => rfl

/-- An expression that its span covers and a semicolon are a program. -/
theorem IsExpression.derives (h : (ofHeight height).IsExpression .plain tokens expr)
    (hspan : expr.span = cover tokens) (hstart : startsReserved tokens = false)
    (hsemicolon : token.kind = .semicolon) :
    Derives (height + 2) (tokens ++ [token]) [.expression (.bare expr)] := by
  have hslot : (ofHeight (height + 1)).IsSlot .plain tokens ⟨expr, cover tokens⟩ := .intro h
  rw [← hspan] at hslot
  exact .single (IsBody.expression hstart hslot hsemicolon).isStatement

end Phrases

/-- A group whose content stands for parameters, an arrow and a name are an arrow function. -/
theorem Derives.of_parameters (height : Nat) {length : Nat} {found : List Token} {content : Expr}
    {parameters : Parameters}
    (hcontent : (Phrases.ofHeight (height + 1)).expr .group (found.map (Token.shift 1)) content)
    (h : content.toParameters ⟨0, length + 2⟩ = .ok parameters) :
    Derives (height + 3) (grouped found length ++ reading .arrow ['=', '>'] (length + 3))
      [.expression (.bare (.arrow parameters
        (.expression (.bare (.name ⟨"x", ⟨length + 6, 1⟩⟩))) ⟨0, length + 7⟩))] := by
  let arrow : Token := ⟨.arrow, String.ofList ['=', '>'], ⟨length + 3, 2⟩⟩
  let name : Token := ⟨.word, "x", ⟨length + 6, 1⟩⟩
  have hspan : Span.between (startOf (grouped found length)) (stopOf [name]) = ⟨0, length + 7⟩ := by
    simp [grouped, Token.mark, name, Span.between, Span.stop]
  have hcover : cover (grouped found length ++ [arrow, name]) = ⟨0, length + 7⟩ := by
    rw [cover_append (by simp [grouped]) (by simp)]
    exact hspan
  have hparameters : (Phrases.ofHeight (height + 1)).IsParameters (grouped found length)
      parameters := .group rfl hcontent rfl ((cover_grouped found length).symm ▸ h)
  have harrow : (Phrases.ofHeight (height + 1)).IsExpression .plain
      (grouped found length ++ [arrow, name]) _ :=
    .arrow hparameters rfl (by simp [name]) (Phrases.isSlot_name height _ "x" ⟨length + 6, 1⟩)
  rw [hspan] at harrow
  have hsemicolon : (Token.mark .semicolon ';' (length + 7)).kind = .semicolon := rfl
  have hderives := harrow.derives hcover.symm rfl hsemicolon
  rwa [List.append_assoc] at hderives

/-- An object literal that stands for a pattern, `=` and a name unpack the name. -/
theorem Derives.of_pattern (height : Nat) {literal : Expr} {target : Binding}
    (hobject : (Phrases.ofHeight (height + 1)).IsObject tokens literal)
    (h : literal.toBinding = .ok target) (offset : Nat) :
    Derives (height + 3) (tokens ++ reading .assign ['='] offset)
      [.expression (.bare (.assign target (.bare (.name ⟨"x", ⟨offset + 2, 1⟩⟩))
        (.between (startOf tokens) (offset + 3))))] := by
  let assign : Token := ⟨.assign, String.ofList ['='], ⟨offset, 1⟩⟩
  let name : Token := ⟨.word, "x", ⟨offset + 2, 1⟩⟩
  have hcover : cover (tokens ++ [assign, name]) = .between (startOf tokens) (offset + 3) :=
    cover_append hobject.opening.ne_nil (by simp)
  have hstart : Phrases.startsReserved (tokens ++ [assign, name]) = false := by
    cases hobject with
    | intro hbrace => simp [Phrases.startsReserved, hbrace]
  have hunpacking : (Phrases.ofHeight (height + 1)).IsExpression .plain
      (tokens ++ assign :: ([name] ++ [])) _ :=
    .unpacking hobject h rfl (Phrases.isSlot_name height _ "x" ⟨offset + 2, 1⟩) .stop
  have hsemicolon : (Token.mark .semicolon ';' (offset + 3)).kind = .semicolon := rfl
  have hderives := hunpacking.derives hcover.symm hstart hsemicolon
  rwa [List.append_assoc] at hderives

/-! ## What turned out to bind nothing -/

section

variable {height : Nat} {mode : Mode} {cause : Cause} {offset : Nat} {violation : Violation}

theorem fails_rebound {α : Type} {result : Except Violation α} (h : result = .error violation) :
    (Level.rebound result).Fails here (.notRebindable violation.cause) violation.span.offset := by
  rw [h]
  exact .fail _ _

/-- A group before an arrow fails at the first part that is no parameter. -/
theorem expression_fails_of_group (mode : Mode) {content : Expr} {close arrow : Token}
    (hcontent : (Phrases.ofHeight height).expr .group tokens content)
    (hbracket : token.kind = .openRound) (hclose : close.kind = .closeRound)
    (hreads : Reads here (token :: (tokens ++ [close])) middle) (harrow : middle.Next arrow)
    (hkind : arrow.kind = .arrow)
    (h : content.toParameters (cover (token :: (tokens ++ [close]))) = .error violation) :
    ((Level.ofHeight height).expression mode).Fails here (.notRebindable violation.cause)
      violation.span.offset := by
  refine .bind (.peek (Reads.cons_iff.1 hreads).1) ?_
  simp only [hbracket]
  refine ((complete_ofHeight height).group_content (Phrases.opens_ofHeight height) hcontent hclose
    hreads).fails (.bind (.peek?_some harrow) ?_)
  obtain ⟨kind, text, span⟩ := arrow
  obtain rfl : kind = .arrow := hkind
  exact .bind_first (fails_rebound h) _

/-- An object literal before `=` fails at the first part that binds nothing. -/
theorem expression_fails_of_object (mode : Mode) {literal : Expr} {assign : Token}
    (hobject : (Phrases.ofHeight height).IsObject tokens literal)
    (hreads : Reads here tokens middle) (hassign : middle.Next assign)
    (hkind : assign.kind = .assign) (h : literal.toBinding = .error violation) :
    ((Level.ofHeight height).expression mode).Fails here (.notRebindable violation.cause)
      violation.span.offset := by
  obtain ⟨brace, hnext, hbrace, -⟩ := hobject.next hreads
  refine .bind (.peek hnext) ?_
  simp only [hbrace]
  exact .bind_first (((complete_ofHeight height).object_fields (Phrases.opens_ofHeight height)
    hobject hreads hnext).fails (.bind (.next?_some hassign hkind)
      (.bind_first (fails_rebound h) _))) _

/-- A program whose first expression fails does so, where no word tells of a declaration. -/
theorem statements_fail_of_expression (hnext : here.Next token) (hword : token.kind ≠ .word)
    (h : ((Level.ofHeight height).expression .plain).Fails here cause offset) :
    (Level.ofHeight (height + 2)).statements.Fails here cause offset := by
  have hslot : ((Level.ofHeight (height + 1)).slot .plain).Fails here cause offset :=
    .bind .offset (.bind_first (.construct (.within h)) _)
  have hbody : (Level.ofHeight (height + 1)).statementBody.Fails here cause offset := by
    refine .bind (.peek hnext) ?_
    rw [if_neg hword]
    exact .bind_first hslot _
  exact statements_fail_first hnext.not_ended
    (.bind .offset (.bind_first (.inStatement (.construct (.within hbody))) _))

end

/-- The error of a text is what every run over it fails for. -/
theorem Program.parse_of_fails {source : String} {cause : Cause} {offset : Nat}
    (h : (Level.ofHeight nestingLimit).statements.Fails (.start source.toList) cause offset) :
    ∃ error, Program.parse source = .error error ∧ error.kind = cause.kind ∧
      error.offset = offset ∧ error.message = cause.message := by
  obtain ⟨failure, stop, hrun, rfl, rfl⟩ := h (.start source.toList) rfl
  exact ⟨_, Program.parse_eq_error_iff.2 ⟨failure, stop, hrun, rfl⟩, rfl, rfl, rfl⟩

/-! ## Reading again by a later token -/

/-- What parsing a text gives when it makes a tree of what is read again, or is refused at the first
part that binds nothing. -/
inductive Reinterprets {α : Type} (tree : α → Program) :
    Except Violation α → Except SyntaxError Program → Prop where
  | ok {value} : Reinterprets tree (.ok value) (.ok (tree value))
  | error {violation error} :
      error.kind = .notRebindable → error.offset = violation.span.offset →
      error.message = violation.cause.message → Reinterprets tree (.error violation) (.error error)

/-- Statements that the tokens of a text derive are its program. -/
theorem Program.parse_of_derives {source : String} {statements : List Statement}
    (hreads : Reads (.start source.toList) tokens there) (hended : there.Ended)
    (h : Derives nestingLimit tokens statements) :
    Program.parse source = .ok ⟨statements, ⟨0, source.toList.length⟩⟩ :=
  Program.parse_eq_ok_iff.2 ⟨tokens, tokens_eq_ok_iff.2 (hreads.tokens_eq_ok hended), h, rfl⟩

/-- An arrow behind a group makes of it what reading its content again makes of it. -/
theorem Program.parse_group_arrow {group : String} {slot : Slot} {span : Span}
    (hgroup : BracketsMatched group)
    (h : Program.parse ("(" ++ group ++ ");") = .ok ⟨[.expression slot], span⟩) :
    Reinterprets (fun parameters => ⟨[.expression (.bare (.arrow parameters
        (.expression (.bare (.name ⟨"x", ⟨group.length + 6, 1⟩⟩))) ⟨0, group.length + 7⟩))],
        ⟨0, group.length + 8⟩⟩)
      (slot.body.toParameters ⟨0, group.length + 2⟩)
      (Program.parse ("(" ++ group ++ ") => x;")) := by
  obtain ⟨found, hfound, hmatched⟩ := hgroup
  obtain ⟨there, hreads, hended, hcontent⟩ := Program.exists_content h hfound hmatched
  have hchars : ("(" ++ group ++ ") => x;").toList =
      '(' :: (group.toList ++ ')' :: ' ' :: (['=', '>'] ++ [' ', 'x', ';'])) := by simp
  rw [← String.length_toList]
  have hgrouped := hreads.start_grouped hended (' ' :: (['=', '>'] ++ [' ', 'x', ';']))
  have hskip : Cursor.skipBlanks
      ⟨group.toList.length + 2, ' ' :: (['=', '>'] ++ [' ', 'x', ';'])⟩ =
      ⟨group.toList.length + 3, ['=', '>'] ++ [' ', 'x', ';']⟩ := rfl
  rw [hskip] at hgrouped
  have hrun : ∀ c ∈ ['=', '>'], isOperatorChar c = true :=
    List.forall_mem_cons.2 ⟨rfl, List.forall_mem_singleton.2 rfl⟩
  have hreading := reads_reading .arrow (by simp) hrun rfl (group.toList.length + 3)
    (group.toList.length + 2)
  rw [← hchars] at hgrouped
  cases hresult : slot.body.toParameters ⟨0, group.toList.length + 2⟩ with
  | ok parameters =>
      rw [Program.parse_of_derives (hgrouped.append hreading) (Place.ended_iff.2 rfl)
        (.of_parameters (nestingLimit - 3) hcontent hresult), hchars]
      simp only [List.length_cons, List.length_append]
      exact .ok
  | error violation =>
      have hfails := expression_fails_of_group .plain hcontent rfl rfl hgrouped
        (Reads.cons_iff.1 hreading).1 rfl (cover_grouped found _ ▸ hresult)
      obtain ⟨error, hparse, hkind, hoffset, hmessage⟩ := Program.parse_of_fails
        (statements_fail_of_expression (Reads.cons_iff.1 hgrouped).1 (by decide) hfails)
      rw [hparse]
      exact .error hkind hoffset hmessage

/-- A `=` behind an object literal makes of it what reading it again makes of it. -/
theorem Program.parse_literal_assign {literal : String} {slot : Slot} {span : Span}
    (hliteral : Braced literal)
    (h : Program.parse (literal ++ ";") = .ok ⟨[.expression slot], span⟩) :
    Reinterprets (fun target => ⟨[.expression (.bare (.assign target
        (.bare (.name ⟨"x", ⟨literal.length + 3, 1⟩⟩))
        (.between slot.body.span.offset (literal.length + 4))))], ⟨0, literal.length + 5⟩⟩)
      slot.body.toBinding (Program.parse (literal ++ " = x;")) := by
  obtain ⟨found, there, hreads, hended, hends, hobject⟩ := Program.exists_literal h hliteral
  have hchars : (literal ++ " = x;").toList =
      literal.toList ++ ' ' :: (['='] ++ [' ', 'x', ';']) := by simp
  rw [← String.length_toList]
  have hbefore := hreads.start_append hended hends (' ' :: (['='] ++ [' ', 'x', ';']))
  have hskip : Cursor.skipBlanks
      ⟨literal.toList.length, ' ' :: (['='] ++ [' ', 'x', ';'])⟩ =
      ⟨literal.toList.length + 1, ['='] ++ [' ', 'x', ';']⟩ := rfl
  rw [hskip, ← hchars] at hbefore
  have hrun : ∀ c ∈ ['='], isOperatorChar c = true := List.forall_mem_singleton.2 rfl
  have hreading := reads_reading .assign (by simp) hrun rfl
    (literal.toList.length + 1) there.lastStop
  have hstart := hobject.startOf_eq
  cases hresult : slot.body.toBinding with
  | ok target =>
      have hderives := Derives.of_pattern (nestingLimit - 3) hobject hresult
        (literal.toList.length + 1)
      rw [Program.parse_of_derives (hbefore.append hreading) (Place.ended_iff.2 rfl) hderives,
        hchars, hstart]
      simp only [List.length_cons, List.length_append]
      exact .ok
  | error violation =>
      obtain ⟨brace, hnext, hbrace, -⟩ := hobject.next hbefore
      have hfails := expression_fails_of_object .plain hobject hbefore
        (Reads.cons_iff.1 hreading).1 rfl hresult
      obtain ⟨error, hparse, hkind, hoffset, hmessage⟩ := Program.parse_of_fails
        (statements_fail_of_expression hnext (by rw [hbrace]; decide) hfails)
      rw [hparse]
      exact .error hkind hoffset hmessage

/-- Reading again by a later token commutes with parsing. Of a text that is parsed as a group, an
arrow makes the parameters that its content stands for, and of one that is parsed as an object
literal, `=` makes the pattern that the literal stands for; where a part binds nothing, the text
with the later token is refused, at this part. -/
theorem Program.parse_reinterprets :
    (∀ (group : String) (slot : Slot) (span : Span), BracketsMatched group →
      Program.parse ("(" ++ group ++ ");") = .ok ⟨[.expression slot], span⟩ →
      Reinterprets (fun parameters => ⟨[.expression (.bare (.arrow parameters
          (.expression (.bare (.name ⟨"x", ⟨group.length + 6, 1⟩⟩))) ⟨0, group.length + 7⟩))],
          ⟨0, group.length + 8⟩⟩)
        (slot.body.toParameters ⟨0, group.length + 2⟩)
        (Program.parse ("(" ++ group ++ ") => x;"))) ∧
    ∀ (literal : String) (slot : Slot) (span : Span), Braced literal →
      Program.parse (literal ++ ";") = .ok ⟨[.expression slot], span⟩ →
      Reinterprets (fun target => ⟨[.expression (.bare (.assign target
          (.bare (.name ⟨"x", ⟨literal.length + 3, 1⟩⟩))
          (.between slot.body.span.offset (literal.length + 4))))], ⟨0, literal.length + 5⟩⟩)
        slot.body.toBinding (Program.parse (literal ++ " = x;")) :=
  ⟨fun _ _ _ hgroup h => Program.parse_group_arrow hgroup h,
    fun _ _ _ hliteral h => Program.parse_literal_assign hliteral h⟩

set_option maxRecDepth 4000 in
/-- A group of parameters, and an object literal with a key that is no name. -/
theorem Program.parse_reinterprets_default :
    ∃ group literal : Slot, BracketsMatched "a, b = 1" ∧ Braced "\x7ba: b, 1: c\x7d" ∧
      Program.parse ("(" ++ "a, b = 1" ++ ");") = .ok ⟨[.expression group], ⟨0, 11⟩⟩ ∧
      Program.parse ("\x7ba: b, 1: c\x7d" ++ ";") = .ok ⟨[.expression literal], ⟨0, 13⟩⟩ ∧
      Reinterprets (fun parameters => ⟨[.expression (.bare (.arrow parameters
          (.expression (.bare (.name ⟨"x", ⟨"a, b = 1".length + 6, 1⟩⟩)))
          ⟨0, "a, b = 1".length + 7⟩))], ⟨0, "a, b = 1".length + 8⟩⟩)
        (group.body.toParameters ⟨0, "a, b = 1".length + 2⟩)
        (Program.parse ("(" ++ "a, b = 1" ++ ") => x;")) ∧
      Reinterprets (fun target => ⟨[.expression (.bare (.assign target
          (.bare (.name ⟨"x", ⟨"\x7ba: b, 1: c\x7d".length + 3, 1⟩⟩))
          (.between literal.body.span.offset ("\x7ba: b, 1: c\x7d".length + 4))))],
          ⟨0, "\x7ba: b, 1: c\x7d".length + 5⟩⟩)
        literal.body.toBinding (Program.parse ("\x7ba: b, 1: c\x7d" ++ " = x;")) := by
  have hgroup : tokens "a, b = 1" = .ok [⟨.word, "a", ⟨0, 1⟩⟩, ⟨.comma, ",", ⟨1, 1⟩⟩,
      ⟨.word, "b", ⟨3, 1⟩⟩, ⟨.assign, "=", ⟨5, 1⟩⟩, ⟨.number, "1", ⟨7, 1⟩⟩] := by cbv
  have hliteral : tokens "\x7ba: b, 1: c\x7d" = .ok (⟨.openCurly, "\x7b", ⟨0, 1⟩⟩ ::
      ([⟨.word, "a", ⟨1, 1⟩⟩, ⟨.colon, ":", ⟨2, 1⟩⟩, ⟨.word, "b", ⟨4, 1⟩⟩, ⟨.comma, ",", ⟨5, 1⟩⟩,
        ⟨.number, "1", ⟨7, 1⟩⟩, ⟨.colon, ":", ⟨8, 1⟩⟩, ⟨.word, "c", ⟨10, 1⟩⟩] ++
        [⟨.closeCurly, "\x7d", ⟨11, 1⟩⟩])) := by cbv
  have hmatched : BracketsMatched "a, b = 1" := ⟨_, hgroup,
    .plain rfl (.plain rfl (.plain rfl (.plain rfl (.single rfl))))⟩
  have hbraced : Braced "\x7ba: b, 1: c\x7d" := ⟨_, _, _, hliteral, rfl, rfl,
    .plain rfl (.plain rfl (.plain rfl (.plain rfl (.plain rfl (.plain rfl (.single rfl))))))⟩
  have hgroupParse : Program.parse ("(" ++ "a, b = 1" ++ ");") = .ok ⟨[.expression
      ⟨.sequence (.name ⟨"a", ⟨1, 1⟩⟩) (.assign (.name ⟨"b", ⟨4, 1⟩⟩)
        (.bare (.number "1" ⟨8, 1⟩)) ⟨4, 5⟩) ⟨1, 8⟩, ⟨0, 10⟩⟩], ⟨0, 11⟩⟩ := by cbv
  have hliteralParse : Program.parse ("\x7ba: b, 1: c\x7d" ++ ";") = .ok ⟨[.expression
      (.bare (.object [⟨.name ⟨"a", ⟨1, 1⟩⟩, .bare (.name ⟨"b", ⟨4, 1⟩⟩), ⟨1, 4⟩⟩,
        ⟨.number "1" ⟨7, 1⟩, .bare (.name ⟨"c", ⟨10, 1⟩⟩), ⟨7, 4⟩⟩] ⟨0, 12⟩))], ⟨0, 13⟩⟩ := by cbv
  exact ⟨_, _, hmatched, hbraced, hgroupParse, hliteralParse,
    Program.parse_reinterprets.1 _ _ _ hmatched hgroupParse,
    Program.parse_reinterprets.2 _ _ _ hbraced hliteralParse⟩

end Scriptlet
