import Mathlib
import Scriptlet.Proofs.Appending
import Scriptlet.Proofs.Exactness
import Scriptlet.Proofs.Progress
import Scriptlet.Proofs.Shifting

/-!
# Programs behind one another

A text that is parsed may stand before any other text that does not start with a semicolon. Its
last token is a mark that nothing behind it can change, so its statements are given as before, and
the run goes on over the other text as a run over that text alone does, further on. What is wrong
with the other text is found in either run, at the same of its characters.
-/

namespace Scriptlet

open Scriptlet.Parser Text

variable {below : Level} {phrases : Phrases} {here there : Place} {tokens : List Token}
  {statements : List Statement} {cause : Cause} {offset : Nat} {inside : Option Nat}

/-! ## Running into a fault -/

/-- Where no semicolon stands a statement may stop, unless there is a fault. -/
theorem Place.followsStatement_or_fault (here : Place)
    (hmark : here.cursor.rest.head? ≠ some ';') :
    here.FollowsStatement ∨ ∃ failure, here.cursor.peek = .error failure := by
  cases hpeek : here.cursor.peek with
  | error failure => exact .inr ⟨failure, rfl⟩
  | ok token? =>
      cases token? with
      | none => exact .inl (.inl hpeek)
      | some token =>
          refine .inl (.inr ⟨token, hpeek, ?_⟩)
          intro hkind
          obtain ⟨lexeme, body, rest, hrest, hstands, rfl, -⟩ := Place.Next.stands hpeek
          obtain ⟨c, rfl, hpunctuation, -⟩ := hstands.of_endsStatement (.inl hkind)
          have hall : ∀ entry ∈ Spelling.punctuation, entry.2 = .semicolon → entry.1 = ';' := by
            decide
          have hc : c = ';' := hall (c, lexeme.kind) (mem_punctuation hpunctuation) hkind
          rw [hrest, hc] at hmark
          exact hmark rfl

/-- Behind a program a text starts where a statement may stop, unless it starts with a fault. -/
theorem followsStatement_shift {more : List Char} (hmark : (dropBlanks more).head? ≠ some ';')
    (hsound : ∀ failure, (Cursor.start more).peek ≠ .error failure) (distance stop : Nat) :
    Place.FollowsStatement ⟨(Cursor.start more).shift distance, stop⟩ := by
  have hplace := Place.followsStatement_or_fault ⟨(Cursor.start more).shift distance, stop⟩ hmark
  rcases hplace with hfollows | ⟨failure, hfault⟩
  · exact hfollows
  · rw [Cursor.peek_shift] at hfault
    cases hpeek : (Cursor.start more).peek with
    | error alone => exact absurd hpeek (hsound alone)
    | ok token? =>
        rw [hpeek] at hfault
        cases hfault

/-- Semicolons are taken up to a fault. -/
theorem semicolons_fail {semicolons : List Token} (hreads : Reads here semicolons there)
    (hkinds : ∀ token ∈ semicolons, token.kind = .semicolon)
    (hfault : there.cursor.peek = .error ⟨cause, offset, inside⟩) :
    (many (next? .semicolon)).Fails here cause offset := by
  induction hreads with
  | nil => exact .many_first (.bind_first (.peek? hfault) _)
  | cons hnext _ ih =>
      obtain ⟨hkind, hrest⟩ := List.forall_mem_cons.1 hkinds
      exact .many_rest length_lt_of_next? (.next?_some hnext hkind) (ih hrest hfault)

/-- A statement with a fault behind it is read, and then the fault is met. -/
theorem Level.Complete.statement_fails (hcomplete : below.Complete phrases) (hopens : phrases.Opens)
    {statement : Statement} (h : phrases.IsStatement tokens statement)
    (hreads : Reads here tokens there)
    (hfault : there.cursor.peek = .error ⟨cause, offset, inside⟩) :
    below.above.statement.Fails here cause offset := by
  cases h with
  | intro hbody hkinds =>
      obtain ⟨middle, hfirst, hsemicolons⟩ := Reads.append_iff.1 hreads
      have hgiven := hcomplete.statementBody hopens hbody hfirst
      exact .bind .offset (.bind (.inStatement (.construct (.within hgiven)))
        (.bind_first (semicolons_fail hsemicolons hkinds hfault) _))

/-- The first statement of a program that fails makes the program fail. -/
theorem statements_fail_first {level : Level} (hended : ¬ here.Ended)
    (h : level.statement.Fails here cause offset) : level.statements.Fails here cause offset := by
  refine .many_first (.bind .atEnd ?_)
  rw [if_neg (by rwa [List.isEmpty_iff, ← Place.ended_iff])]
  exact .bind_first h _

/-- No statement starts at a fault. -/
theorem statement_fails_at {height : Nat}
    (hfault : here.cursor.peek = .error ⟨cause, offset, inside⟩) :
    (Level.ofHeight (height + 1)).statement.Fails here cause offset :=
  .bind .offset (.bind_first (.inStatement (.construct (.within
    (.bind_first (.bind_first (.peek? hfault) _) _)))) _)

/-- Statements with a fault behind them are read, and then the fault is met. -/
theorem Derives.statements_fail {limit : Nat} (h : Derives limit tokens statements)
    (hne : statements ≠ []) (hreads : Reads here tokens there)
    (hfault : there.cursor.peek = .error ⟨cause, offset, inside⟩) :
    (Level.ofHeight limit).statements.Fails here cause offset := by
  have hopens := Phrases.opens_ofHeight limit
  unfold Derives at h
  induction h generalizing here with
  | nil => exact absurd rfl hne
  | @cons tokens statement more statements hstatement hseries ih =>
      obtain ⟨middle, hfirst, hrest⟩ := Reads.append_iff.1 hreads
      obtain ⟨first, hnext, -⟩ := (hopens.statement hstatement).next hfirst
      -- The last statement runs into the fault; before it a statement may stop at the next one.
      cases hseries with
      | nil =>
          obtain rfl := Reads.nil_iff.1 hrest
          refine statements_fail_first hnext.not_ended ?_
          cases limit with
          | zero => exact hstatement.elim
          | succ height =>
              exact (complete_ofHeight height).statement_fails (Phrases.opens_ofHeight height)
                hstatement hfirst hfault
      | @cons _ _ _ _ hsecond _ =>
          have hfollows : middle.FollowsStatement := by
            obtain ⟨behind, hsecondReads, -⟩ := Reads.append_iff.1 hrest
            exact (hopens.statement hsecond).followsStatement hsecondReads
          have hgiven := (complete_ofHeight limit).statement hstatement hfirst hfollows
          exact .many_rest (grammatical_ofHeight limit).length_lt_of_statement?
            (gives_statement? hnext.not_ended hgiven) (ih (List.cons_ne_nil _ _) hrest)

/-! ## Going on behind a program -/

/-- Behind the statements that are derived the list of statements goes on with what follows. -/
theorem Derives.statements_run {limit : Nat} (h : Derives limit tokens statements)
    (hreads : Reads here tokens there) (hfollows : statements ≠ [] → there.FollowsStatement)
    (start : ParseState) (hstart : start.place = here) :
    ∃ reached : ParseState, reached.place = there ∧ reached.depth = start.depth ∧
      (Level.ofHeight limit).statements start =
        prepended statements ((Level.ofHeight limit).statements reached) := by
  have hopens := Phrases.opens_ofHeight limit
  unfold Derives at h
  induction h generalizing here start with
  | nil =>
      obtain rfl := Reads.nil_iff.1 hreads
      exact ⟨start, hstart, rfl, by simp⟩
  | @cons tokens statement more statements hstatement hseries ih =>
      obtain ⟨middle, hfirst, hrest⟩ := Reads.append_iff.1 hreads
      obtain ⟨first, hnext, -⟩ := (hopens.statement hstatement).next hfirst
      have hthere := hfollows (List.cons_ne_nil _ _)
      have hmiddle := hseries.followsStatement hopens hrest hthere
      have hgiven := (complete_ofHeight limit).statement hstatement hfirst hmiddle
      obtain ⟨behind, hbehind, hdepth, hrun⟩ :=
        gives_statement? hnext.not_ended hgiven start hstart
      obtain ⟨reached, hreached, hdepthRest, hrunRest⟩ := ih hrest (fun _ => hthere) behind hbehind
      refine ⟨reached, hreached, hdepthRest.trans hdepth, ?_⟩
      have hsplit := many_some (grammatical_ofHeight limit).length_lt_of_statement? hrun
      change (Level.ofHeight limit).statements start =
        prepended [statement] ((Level.ofHeight limit).statements behind) at hsplit
      rw [hsplit, hrunRest, prepended_prepended]
      rfl

/-- Text that stands further on starts as it does alone. -/
theorem start_shift (more : List Char) (distance : Nat) :
    Cursor.skipBlanks ⟨distance, more⟩ = (Cursor.start more).shift distance := by
  have hshift := Cursor.skipBlanks_shift ⟨0, more⟩ distance
  unfold Cursor.shift at hshift
  rw [Nat.zero_add] at hshift
  exact hshift

section

variable {limit : Nat} {text more : List Char}

/-- A run over a text behind a program goes on as a run over that text alone, if a statement may
stop before it. -/
theorem Derives.parseWithin_append (h : Derives limit tokens statements)
    (hreads : Reads (.start text) tokens there) (hended : there.Ended)
    (hfollows : statements ≠ [] →
      Place.FollowsStatement ⟨(Cursor.start more).shift text.length, there.lastStop⟩) :
    ∃ outcome, parseWithin limit (text ++ more) = prepended statements outcome ∧
      (Simulation.shift text.length).Agrees
        (List.Forall₂ (Statement.Alike (Simulation.shift text.length).span))
        (parseWithin limit more) outcome := by
  have hreads' := hreads.start_append hended h.endsStatement more
  rw [start_shift] at hreads'
  obtain ⟨reached, hreached, hdepth, hrun⟩ := h.statements_run hreads' hfollows
    (.start (text ++ more)) rfl
  refine ⟨_, hrun, ?_⟩
  have hstop : there.lastStop ≤ text.length := by
    have hle := hreads.lastStop_le (Nat.zero_le _)
    rwa [hended.offset_eq (hreads.in (Cursor.start_in text))] at hle
  have hlast : reached.lastStop ≤ text.length := by
    rwa [show reached.lastStop = there.lastStop from congrArg Place.lastStop hreached]
  have hstate : (Simulation.shift text.length).state (.start more) reached :=
    ⟨congrArg Place.cursor hreached, hdepth.symm, .inr ⟨rfl, hlast⟩⟩
  exact Simulation.agrees_statements_ofHeight (Simulation.shift_lawful text.length) limit hstate

/-- What is wrong with the start of a text is found behind a program as well. -/
theorem Derives.parseWithin_append_fault {failure : Failure}
    (h : Derives nestingLimit tokens statements) (hne : statements ≠ [])
    (hreads : Reads (.start text) tokens there) (hended : there.Ended)
    (hfault : (Cursor.start more).peek = .error failure) :
    (∃ alone stop, parseWithin nestingLimit more = .error alone stop ∧
      alone.cause = failure.cause ∧ alone.offset = failure.offset) ∧
    (∃ behind stop, parseWithin nestingLimit (text ++ more) = .error behind stop ∧
      behind.cause = failure.cause ∧ behind.offset = failure.offset + text.length) := by
  have hfurther : ((Cursor.start more).shift text.length).peek =
      .error (failure.shift text.length) := by
    rw [Cursor.peek_shift, hfault]
    rfl
  have hreads' := hreads.start_append hended h.endsStatement more
  rw [start_shift] at hreads'
  obtain ⟨cause, offset, inside⟩ := failure
  constructor
  · have hended' : ¬ (Place.start more).Ended := by
      intro hnone
      cases hfault.symm.trans hnone
    exact statements_fail_first hended' (statement_fails_at hfault) (.start more) rfl
  · exact h.statements_fail hne hreads' hfurther (.start (text ++ more)) rfl

end

/-- What is parsed of a text alone and of the same text behind a program: statements that follow
those of the program, further on, or the same error further on. -/
inductive ParsedBehind (program : Program) (distance : Nat) :
    Except SyntaxError Program → Except SyntaxError Program → Prop where
  | ok {alone whole} :
      whole.statements =
        program.statements ++ Statement.mapSpansAll (Span.shift distance) alone.statements →
      ParsedBehind program distance (.ok alone) (.ok whole)
  | error {error other} :
      other.kind = error.kind → other.message = error.message →
      other.offset = error.offset + distance →
      ParsedBehind program distance (.error error) (.error other)

/-- Any text that does not start with a semicolon is parsed behind a program as it is alone. -/
theorem Program.parse_append {source more : String} {program : Program}
    (h : Program.parse source = .ok program)
    (hmark : (dropBlanks more.toList).head? ≠ some ';') :
    ParsedBehind program source.toList.length (Program.parse more)
      (Program.parse (source ++ more)) := by
  obtain ⟨-, hrun⟩ := Program.parse_eq_ok_iff_run.1 h
  obtain ⟨tokens, htokens, hderives⟩ := parseWithin_eq_ok_iff.1 hrun
  obtain ⟨there, hreads, hended⟩ :=
    Reads.start_tokens_eq_ok_iff.1 htokens
  rw [Program.parse_run, Program.parse_run, String.toList_append]
  -- With no statement before it the text is met by a statement, as it is alone. Otherwise a fault
  -- at its start is met by the semicolons behind the last statement.
  by_cases hmeets : program.statements ≠ [] ∧
      ∃ failure, (Cursor.start more.toList).peek = .error failure
  · obtain ⟨hne, failure, hfault⟩ := hmeets
    obtain ⟨⟨alone, stop, hrun, hcause, hoffset⟩, behind, stop', hrun', hcause', hoffset'⟩ :=
      Derives.parseWithin_append_fault hderives hne hreads hended hfault
    rw [hrun, hrun']
    refine .error ?_ ?_ ?_
    · exact congrArg Cause.kind (hcause'.trans hcause.symm)
    · exact congrArg Cause.message (hcause'.trans hcause.symm)
    · exact hoffset'.trans (congrArg (· + source.toList.length) hoffset.symm)
  · have hfollows : program.statements ≠ [] → Place.FollowsStatement
        ⟨(Cursor.start more.toList).shift source.toList.length, there.lastStop⟩ := by
      intro hne
      refine followsStatement_shift hmark ?_ _ _
      intro failure hfault
      exact hmeets ⟨hne, failure, hfault⟩
    obtain ⟨outcome, hwhole, hagrees⟩ := hderives.parseWithin_append hreads hended hfollows
    rw [hwhole]
    generalize parseWithin nestingLimit more.toList = alone at hagrees ⊢
    cases hagrees with
    | ok hstatements _ =>
        refine .ok ?_
        rw [Statement.Alike.mapSpansAll_eq (g := id) (fun _ _ hspan => hspan.symm) hstatements,
          Statement.mapSpansAll_id]
    | error hfailure _ =>
        obtain ⟨hkind, hmessage, hoffset⟩ := hfailure
        exact .error hkind.symm hmessage.symm hoffset
    | gaveUp hfalse => exact hfalse.elim

set_option maxRecDepth 4000 in
/-- A call is parsed behind a declaration as it is alone. -/
theorem Program.parse_append_call :
    ∃ program, Program.parse "let a = 1;" = .ok program ∧
      (dropBlanks " f(a);".toList).head? ≠ some ';' ∧
      ParsedBehind program 10 (Program.parse " f(a);")
        (Program.parse ("let a = 1;" ++ " f(a);")) := by
  have hprogram : Program.parse "let a = 1;" =
      .ok ⟨[.variableDeclaration .asLet ⟨"a", ⟨4, 1⟩⟩ (some ⟨.number "1" ⟨8, 1⟩, ⟨8, 1⟩⟩) ⟨0, 10⟩],
        ⟨0, 10⟩⟩ := by cbv
  have hmark : (dropBlanks " f(a);".toList).head? ≠ some ';' := by
    have hfirst : (dropBlanks " f(a);".toList).head? = some 'f' := rfl
    rw [hfirst]
    decide
  exact ⟨_, hprogram, hmark, Program.parse_append hprogram hmark⟩

end Scriptlet
