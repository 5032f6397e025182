import Mathlib
import Scriptlet.Proofs.Completion
import Scriptlet.Proofs.Extension

/-!
# Verdicts on the start of a text

What a parse says of a text that goes on. A text that ends too early is the start of a program, as
long as fewer constructs are open than may be. Every other refusal is final, with one exception:
where the bound on nesting stops the parse at the end of the text, behind an opening bracket or an
arrow, more text can do without the construct that has no level, and the text is the start of a
program too.
-/

namespace Scriptlet

open Scriptlet.Parser Text

/-! ## Texts that end too early -/

/-- Behind a line with a failure that more text may mend, some pieces complete a program, unless the
last token of the line settles that a construct follows which has no level left. -/
theorem parseWithin_resumed {deep : Prop} {limit : Nat} {text : List Char} {c : Char}
    {found : List Token} {finish : Place} {failure : Failure} {stop : ParseState}
    (hlast : text.getLast? = some c) (hc : isBlank c = true)
    (hfound : Reads (.start text) found finish) (hfinish : finish.Ended)
    (h : parseWithin limit text = .error failure stop)
    (hmendable : failure.Mendable deep limit stop (Event.openConstructs stop.journal).length) :
    (∃ pieces statements stop',
      parseWithin limit (text ++ Piece.text pieces) = .ok statements stop') ∨
    (deep ∧ ¬ Invites found) := by
  have hout : (Level.ofHeight limit).statements.RunsOut deep limit (.start text) :=
    ⟨.start text, failure, stop, _, rfl, h, (List.append_nil _).symm, hmendable⟩
  rcases resumes_statements hout with
    ⟨tokens, there, pieces, hreads, hended, hcompletes⟩ |
      ⟨hdeep, tokens, there, hreads, hended, hsettles⟩
  · obtain ⟨more, finish, hmore, hfinish, hspelled⟩ :=
      Piece.exists_reads pieces text.length there.lastStop
    obtain ⟨statements, hderives⟩ := hcompletes more hspelled
    have hall := (hreads.start_append_blank hended hlast hc (Piece.text pieces)).append hmore
    obtain ⟨stop', hrun⟩ := parseWithin_eq_ok_iff.2 ⟨_, hall.tokens_eq_ok hfinish, hderives⟩
    exact .inl ⟨pieces, statements, stop', hrun⟩
  · have hsame := (hreads.tokens_eq_ok hended).symm.trans (hfound.tokens_eq_ok hfinish)
    cases hsame
    exact .inr ⟨hdeep, hsettles.not_invites⟩

/-! ## Brackets up to the bound on nesting -/

section Brackets

variable {tokens : List Token} {here finish : Place} {height : Nat} {mode : Mode}

/-- An expression of opening brackets alone comes to the end of the text with no level left. -/
theorem Level.expr_lacksLevels (hreads : Reads here tokens finish) (hended : finish.Ended)
    (hkinds : ∀ token ∈ tokens, token.kind = .openRound) (hlength : tokens.length = height) :
    ((Level.ofHeight height).expr mode).FailsWith here fun failure =>
      failure.LacksLevels finish := by
  induction height generalizing mode tokens here with
  | zero =>
      obtain rfl := List.length_eq_zero_iff.1 hlength
      obtain rfl := Reads.nil_iff.1 hreads
      exact GivesUp.construct .tooDeep _ _
  | succ height ih =>
      obtain ⟨token, rest, rfl⟩ := List.exists_cons_of_length_eq_add_one hlength
      obtain ⟨hnext, hrest⟩ := Reads.cons_iff.1 hreads
      have hopen : (next? .closeRound).Gives (here.past token) none (here.past token) := by
        cases hrest with
        | nil => exact .next?_ended hended
        | @cons _ second _ _ hsecond _ =>
            exact .next?_other hsecond (by simp [hkinds second (by simp)])
      have hcontent : ((Level.ofHeight height).expr .group).FailsWith (here.past token)
          fun failure => failure.LacksLevels finish :=
        ih hrest (fun other hmem => hkinds other (List.mem_cons_of_mem _ hmem))
          (by simpa using hlength)
      have hgroup : ((Level.ofHeight height).group token mode).FailsWith here fun failure =>
          failure.LacksLevels finish :=
        .bind .take (.bind hopen (.bind_first hcontent _))
      refine .construct (.within (.bind (.peek hnext) ?_))
      simpa only [hkinds token List.mem_cons_self] using hgroup

/-- So does a text of opening brackets alone, one less than there are levels. -/
theorem statements_lackLevels (hreads : Reads here tokens finish) (hended : finish.Ended)
    (hkinds : ∀ token ∈ tokens, token.kind = .openRound) (hlength : tokens.length = height + 1) :
    (Level.ofHeight (height + 2)).statements.FailsWith here fun failure =>
      failure.LacksLevels finish := by
  obtain ⟨token, rest, rfl⟩ := List.exists_cons_of_length_eq_add_one hlength
  have hnext := (Reads.cons_iff.1 hreads).1
  have hslot : ((Level.ofHeight (height + 1)).slot .plain).FailsWith here fun failure =>
      failure.LacksLevels finish :=
    .bind .offset (.bind_first (Level.expr_lacksLevels hreads hended hkinds hlength) _)
  have hbody : (Level.ofHeight (height + 1)).statementBody.FailsWith here fun failure =>
      failure.LacksLevels finish := by
    refine .bind (.peek hnext) ?_
    rw [if_neg (by simp [hkinds token List.mem_cons_self])]
    exact hslot.bind_first _
  have hstatement : ((Level.ofHeight (height + 2)).statement).FailsWith here fun failure =>
      failure.LacksLevels finish :=
    .bind .offset (.bind_first (.inStatement (.construct (.within hbody))
      fun _ hfailure => hfailure.inStatement _) _)
  refine .many_first (.bind .atEnd ?_)
  rw [if_neg (by rw [List.isEmpty_iff, ← Place.ended_iff]; exact hnext.not_ended)]
  exact hstatement.bind_first _

end Brackets

/-- A line for each of so many opening brackets. -/
def openBrackets (count : Nat) : String :=
  String.ofList (Piece.text (List.replicate count .openRound))

theorem openBrackets_endsLine (count : Nat) :
    (openBrackets (count + 1)).toList.getLast? = some '\n' := by
  rw [openBrackets, String.toList_ofList, List.replicate_succ', Piece.text_append]
  simp

/-- An empty list of parameters is closed and made an arrow function, and so many groups around it
are closed. -/
def Piece.closing (groups : Nat) : List Piece :=
  [.closeRound, .arrow, .openCurly, .closeCurly] ++ List.replicate groups .closeRound

/-- The rest of a program that starts with so many opening brackets. -/
def closeBrackets (groups : Nat) : String :=
  String.ofList (Piece.text (Piece.closing groups ++ [.semicolon]))

/-- The groups that an arrow function closes derive an expression. The brackets need a level each,
the arrow function none of its own. -/
theorem Phrases.expr_of_closing {groups : Nat} {mode : Mode} {tokens : List Token}
    (hspelled : Spelled (List.replicate (groups + 1) .openRound ++ Piece.closing groups) tokens) :
    ∃ expr, (Phrases.ofHeight (groups + 1)).expr mode tokens expr := by
  induction groups generalizing mode tokens with
  | zero =>
      rcases hspelled with _ | ⟨⟨hopen, -⟩, _ | ⟨⟨hclose, -⟩, _ | ⟨⟨harrow, -⟩, hspelled⟩⟩⟩
      exact (Phrases.IsParameters.empty hopen hclose).isExpression harrow hspelled
  | succ groups ih =>
      have hpieces : List.replicate (groups + 2) .openRound ++ Piece.closing (groups + 1) =
          .openRound :: (List.replicate (groups + 1) .openRound ++ Piece.closing groups ++
            [.closeRound]) := by
        simp only [List.replicate_succ (n := groups + 1), Piece.closing, List.replicate_succ',
          List.cons_append, List.append_assoc, List.nil_append]
      rw [hpieces] at hspelled
      rcases hspelled with _ | ⟨⟨hopen, -⟩, hspelled⟩
      obtain ⟨inner, _, rfl, hinner, _ | ⟨⟨hclose, -⟩, ⟨⟩⟩⟩ := Spelled.of_append hspelled
      obtain ⟨content, hcontent⟩ := ih hinner
      exact ⟨content, (Phrases.IsPrimary.group hopen hcontent hclose).isExpression⟩

/-- With as many levels as there are brackets, and one for the statement, the brackets alone are
refused at their end for want of levels. -/
theorem parseWithin_openBrackets (groups : Nat) :
    ∃ found failure stop levels,
      (Cursor.start (openBrackets (groups + 1)).toList).tokens = .ok found ∧ Invites found ∧
      parseWithin (groups + 2) (openBrackets (groups + 1)).toList = .error failure stop ∧
      failure.cause = .tooDeep levels ∧
      failure.offset = (openBrackets (groups + 1)).toList.length := by
  rw [openBrackets, String.toList_ofList]
  obtain ⟨found, finish, hreads, hended, hspelled⟩ :=
    Piece.exists_reads_start (List.replicate (groups + 1) .openRound)
  have hkinds := hspelled.kind_of_replicate
  have hlength : found.length = groups + 1 := by
    rw [← hspelled.length_eq, List.length_replicate]
  obtain ⟨failure, stop, hrun, levels, hcause, hoffset⟩ :=
    statements_lackLevels hreads hended hkinds hlength (.start _) rfl
  have hne : found ≠ [] := List.ne_nil_of_length_eq_add_one hlength
  have hinvites : Invites found := by
    refine ⟨found.getLast hne, List.getLast?_eq_some_getLast hne, ?_⟩
    rw [hkinds _ (List.getLast_mem hne)]
    rfl
  refine ⟨found, failure, stop, levels, hreads.tokens_eq_ok hended, hinvites, hrun, hcause, ?_⟩
  rw [hoffset]
  exact hended.offset_eq (hreads.in (Cursor.start_in _))

/-- With as many levels the brackets and what closes them are a program. -/
theorem parseWithin_closeBrackets (groups : Nat) :
    ∃ statements stop, parseWithin (groups + 2)
      (openBrackets (groups + 1) ++ closeBrackets groups).toList = .ok statements stop := by
  rw [openBrackets, closeBrackets, String.toList_append, String.toList_ofList,
    String.toList_ofList, ← Piece.text_append, ← List.append_assoc]
  obtain ⟨_, finish, hreads, hended, hspelled⟩ := Piece.exists_reads_start
    (List.replicate (groups + 1) .openRound ++ Piece.closing groups ++ [.semicolon])
  obtain ⟨tokens, _, rfl, hgroups, _ | ⟨⟨hsemicolon, -⟩, ⟨⟩⟩⟩ := Spelled.of_append hspelled
  obtain ⟨expr, hexpr⟩ : ∃ expr, (Phrases.ofHeight (groups + 1)).expr .plain tokens expr :=
    Phrases.expr_of_closing hgroups
  have hreserved : Phrases.startsReserved tokens = false := by
    rcases hgroups with _ | ⟨⟨hopen, -⟩, -⟩
    simp [Phrases.startsReserved, hopen, Piece.openRound, Piece.mark]
  have hbody := Phrases.IsBody.expression hreserved (.intro hexpr) hsemicolon
  have hderives : Derives (groups + 2) _ _ := Phrases.Series.single hbody.isStatement
  obtain ⟨stop, hrun⟩ := parseWithin_eq_ok_iff.2 ⟨_, hreads.tokens_eq_ok hended, hderives⟩
  exact ⟨_, stop, hrun⟩

/-! ## Programs -/

/-- An error that more text can take back: the bound on nesting stops the parse at the end of the
text, whose last token leaves open whether a construct follows. -/
structure SyntaxError.Provisional (error : SyntaxError) (text : List Char) (found : List Token) :
    Prop where
  kind : error.kind = .unsupported
  message : error.message = (Cause.tooDeep nestingLimit).message
  offset : error.offset = text.length
  invites : Invites found

/-- Of what is not supported, only nesting is reported in the words for it. -/
theorem Cause.eq_tooDeep {cause : Cause} {limit : Nat} (hkind : cause.kind = .unsupported)
    (hmessage : cause.message = (Cause.tooDeep limit).message) :
    ∃ levels, cause = .tooDeep levels := by
  cases cause with
  | tooDeep levels => exact ⟨levels, rfl⟩
  | unsupportedStatement word =>
      have hword : (Cause.unsupportedStatement word).message.toList.head? = some '\x60' := by
        unfold Cause.message
        rw [String.toList_append, String.toList_append]
        rfl
      have hlevels : (Cause.tooDeep limit).message.toList.head? = some 'n' := by
        unfold Cause.message
        rw [String.toList_append, String.toList_append]
        rfl
      rw [hmessage, hlevels] at hword
      cases hword
  | fault | endOfInput | unexpected | notRebindable | reservedName => cases hkind

/-- A run that has come to as many characters as a text has is at its end. -/
theorem ended_of_offset_eq {limit : Nat} {text : List Char} {failure : Failure} {stop : ParseState}
    (h : parseWithin limit text = .error failure stop)
    (hoffset : stop.place.cursor.offset = text.length) : stop.place.Ended := by
  have hreads := run_reads limit text
  rw [h] at hreads
  obtain ⟨before, htext, hbefore⟩ := hreads.1.in (Cursor.start_in text)
  have hlength := congrArg List.length htext
  rw [List.length_append, ← hoffset, hbefore] at hlength
  exact Place.ended_iff.2 (List.length_eq_zero_iff.1 (Nat.left_eq_add.1 hlength))

/-- Of a line that has tokens, the error tells what may follow. If the text ends too early, with
fewer constructs open than may be, some text behind it makes it a program. Any other error is final,
unless it is provisional: with whatever behind it, the text is refused in the same words. And where
it is provisional, some text behind it makes it a program after all. -/
theorem Program.verdict_append {source : String} {found : List Token} {error : SyntaxError}
    (hline : source.toList.getLast? = some '\n') (hfound : tokens source = .ok found)
    (herror : Program.parse source = .error error) :
    (error.kind = .endOfInput →
      (Event.openConstructs (Program.parseText source.toList).2).length < nestingLimit →
      ∃ more program, Program.parse (source ++ more) = .ok program) ∧
    (error.kind ≠ .endOfInput → ¬ error.Provisional source.toList found →
      ∀ more, ∃ other, Program.parse (source ++ more) = .error other ∧
        other.kind = error.kind ∧ other.message = error.message) ∧
    (error.Provisional source.toList found →
      ∃ more program, Program.parse (source ++ more) = .ok program) := by
  obtain ⟨failure, stop, hrun, rfl⟩ := Program.parse_eq_error_iff.1 herror
  obtain ⟨finish, hreads, hended⟩ := Reads.start_tokens_eq_ok_iff.1 (tokens_eq_ok_iff.1 hfound)
  have hblank : isBlank '\n' = true := by decide
  have hprogram (h : ∃ pieces statements stop', parseWithin nestingLimit
      (source.toList ++ Piece.text pieces) = .ok statements stop') :
      ∃ more program, Program.parse (source ++ more) = .ok program := by
    obtain ⟨pieces, statements, stop', hresumed⟩ := h
    refine ⟨String.ofList (Piece.text pieces), ⟨statements, _⟩,
      Program.parse_eq_ok_iff_run.2 ⟨rfl, stop', ?_⟩⟩
    rwa [String.toList_append, String.toList_ofList]
  refine ⟨fun hkind hopen => ?_, fun hkind hprovisional more => ?_, fun hprovisional => ?_⟩
  · have hcause : failure.cause = .endOfInput := by
      change failure.cause.kind = .endOfInput at hkind
      cases hfailure : failure.cause <;> rw [hfailure] at hkind <;> first | rfl | cases hkind
    rw [Program.journal_eq, hrun] at hopen
    have hmendable : failure.Mendable False nestingLimit stop _ := .endOfInput hcause hopen
    exact hprogram ((parseWithin_resumed hline hblank hreads hended hrun hmendable).resolve_right
      And.left)
  · have hmore := hreads.start_append_blank hended hline hblank more.toList
    rcases parseWithin_error_append hreads hended hmore hrun with
      ⟨other, stop', hrun', hcause⟩ | hcause | ⟨levels, hcause, hoffset, hinvites⟩
    · refine ⟨other.report _, Program.parse_eq_error_iff.2 ⟨other, stop', ?_, rfl⟩,
        congrArg Cause.kind hcause, congrArg Cause.message hcause⟩
      rwa [String.toList_append]
    · exact absurd (congrArg Cause.kind hcause) hkind
    · have hstopped := (Failure.stopsAt hrun hcause).cause
      exact absurd ⟨congrArg Cause.kind hcause, congrArg Cause.message hstopped, hoffset, hinvites⟩
        hprovisional
  · obtain ⟨levels, hcause⟩ := Cause.eq_tooDeep hprovisional.kind hprovisional.message
    have hstop := ended_of_offset_eq hrun
      ((Failure.stopsAt hrun hcause).offset.symm.trans hprovisional.offset)
    exact hprogram ((parseWithin_resumed hline hblank hreads hended hrun
      (.tooDeep trivial hcause hstop)).resolve_right
      fun hsettled => hsettled.2 hprovisional.invites)

set_option maxRecDepth 4000 in
/-- A call that is not closed is the start of a program, a closing bracket alone is not, and 255
opening brackets are. -/
theorem Program.verdict_append_bracket :
    (∃ more program, Program.parse ("f(\n" ++ more) = .ok program) ∧
    (∀ more, ∃ other, Program.parse (")\n" ++ more) = .error other ∧
      other.kind = .unexpectedToken ∧ other.message = "expected an expression, found `)`") ∧
    (∃ more program, Program.parse (openBrackets 255 ++ more) = .ok program) := by
  refine ⟨?_, ?_, ?_⟩
  · have hcall : tokens "f(\n" = .ok [⟨.word, "f", ⟨0, 1⟩⟩, ⟨.openRound, "(", ⟨1, 1⟩⟩] := by cbv
    have hshort : (Program.parseText "f(\n".toList).1 = .error ⟨.endOfInput, 3, some 0⟩ := by cbv
    have hopen : (Event.openConstructs (Program.parseText "f(\n".toList).2).length = 3 := by cbv
    have hended : Program.parse "f(\n" =
        .error (Failure.report ⟨.endOfInput, 3, some 0⟩ "f(\n".toList) := by
      simp only [Program.parse, hshort, Except.mapError]
    exact (Program.verdict_append (by decide) hcall hended).1 rfl (by rw [hopen]; decide)
  · have hbracket : tokens ")\n" = .ok [⟨.closeRound, ")", ⟨0, 1⟩⟩] := by cbv
    have hwrong : (Program.parseText ")\n".toList).1 =
        .error ⟨.unexpected .expression ⟨.closeRound, ")", ⟨0, 1⟩⟩, 0, some 0⟩ := by cbv
    have hrefused : Program.parse ")\n" = .error (Failure.report
        ⟨.unexpected .expression ⟨.closeRound, ")", ⟨0, 1⟩⟩, 0, some 0⟩ ")\n".toList) := by
      simp only [Program.parse, hwrong, Except.mapError]
    refine (Program.verdict_append (by decide) hbracket hrefused).2.1 (by decide)
      fun hprovisional => ?_
    exact absurd hprovisional.offset (by decide)
  · obtain ⟨found, failure, stop, levels, hfound, hinvites, hrun, hcause, hoffset⟩ :=
      parseWithin_openBrackets 254
    have hmessage := congrArg Cause.message (Failure.stopsAt hrun hcause).cause
    exact (Program.verdict_append (openBrackets_endsLine 254) (tokens_eq_ok_iff.2 hfound)
      (Program.parse_eq_error_iff.2 ⟨failure, stop, hrun, rfl⟩)).2.2
      ⟨congrArg Cause.kind hcause, hmessage, hoffset, hinvites⟩

/-- At the bound on nesting a refusal is not final. A text of 255 opening brackets is refused, but
not for want of text, and with the right text behind it it is a program. -/
theorem Program.parse_openBrackets_append :
    (openBrackets 255).toList.getLast? = some '\n' ∧
      ∃ found error program, tokens (openBrackets 255) = .ok found ∧
        Program.parse (openBrackets 255) = .error error ∧ error.kind = .unsupported ∧
        Program.parse (openBrackets 255 ++ closeBrackets 254) = .ok program := by
  obtain ⟨found, failure, stop, levels, hfound, -, hrun, hcause, -⟩ := parseWithin_openBrackets 254
  obtain ⟨statements, stop', hrun'⟩ := parseWithin_closeBrackets 254
  exact ⟨openBrackets_endsLine 254, found, _, ⟨statements, _⟩, tokens_eq_ok_iff.2 hfound,
    Program.parse_eq_error_iff.2 ⟨failure, stop, hrun, rfl⟩, congrArg Cause.kind hcause,
    Program.parse_eq_ok_iff_run.2 ⟨rfl, stop', hrun'⟩⟩

end Scriptlet
