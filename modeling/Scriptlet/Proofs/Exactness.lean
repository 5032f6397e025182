import Scriptlet.Parse.Program
import Scriptlet.Proofs.Completeness

/-!
# The parser accepts exactly the grammar

A run over a whole text gives statements exactly when the tokens of the text derive them, with as
many statements and expressions on any path as there are levels. `Program.parse_eq_ok_iff` says so
of the program, spans included: the positions in a tree are those that the derivation gives.
-/

namespace Scriptlet

open Scriptlet.Parser

variable {level : Level} {phrases : Phrases} {found : List Statement}

/-- A statement of a program, as a run can give it. -/
theorem canGive_statement? {here there : Place} {statement? : Option Statement}
    (h : Parser.CanGive (do if ← atEnd then return none else return some (← level.statement)) here
      statement? there) :
    (∃ statement, statement? = some statement ∧ level.statement.CanGive here statement there) ∨
      (statement? = none ∧ here.Ended ∧ here = there) := by
  obtain ⟨ended, _, hended, hrest⟩ := h.bind
  obtain ⟨rfl, rfl⟩ := hended.atEnd
  split at hrest
  · next hempty =>
    obtain ⟨rfl, rfl⟩ := hrest.pure
    exact .inr ⟨rfl, Place.ended_iff.2 (List.isEmpty_iff.1 hempty), rfl⟩
  · obtain ⟨statement, _, hstatement, hrest⟩ := hrest.bind
    obtain ⟨rfl, rfl⟩ := hrest.pure
    exact .inl ⟨statement, rfl, hstatement⟩

/-- A statement of a program, as every run gives it where the text goes on. -/
theorem gives_statement? {here there : Place} {statement : Statement} (hended : ¬ here.Ended)
    (h : level.statement.Gives here statement there) :
    Parser.Gives (do if ← atEnd then return none else return some (← level.statement)) here
      (some statement) there := by
  refine .bind .atEnd ?_
  rw [if_neg (by rwa [List.isEmpty_iff, ← Place.ended_iff])]
  exact .bind h (.pure _)

/-- The statements that a run over a text can give are derived from the tokens up to its end. -/
theorem Level.Sound.statements (hsound : level.Sound phrases) {here there : Place}
    (h : level.statements.CanGive here found there) :
    ∃ tokens, Reads here tokens there ∧ there.Ended ∧
      Phrases.Series phrases.statement tokens found := by
  have hrepeats := h.many
  obtain ⟨tokens, middle, hreads, hseries, hstop⟩ :=
    Phrases.Series.of_repeats phrases.statement (fun hstatement => by
      rcases canGive_statement? hstatement with ⟨_, hsome, hgiven⟩ | ⟨hnone, -⟩
      · cases hsome
        obtain ⟨tokens, hreads, hderived, -⟩ := hsound.statement hgiven
        exact ⟨tokens, hreads, hderived⟩
      · cases hnone) hrepeats
  rcases canGive_statement? hstop with ⟨_, hsome, -⟩ | ⟨-, hended, rfl⟩
  · cases hsome
  · exact ⟨tokens, hreads, hended, hseries⟩

/-- The statements that the tokens up to the end of a text derive are given. -/
theorem Level.Complete.statements (hcomplete : level.Complete phrases) (hopens : phrases.Opens)
    {tokens : List Token} {here there : Place}
    (h : Phrases.Series phrases.statement tokens found) (hreads : Reads here tokens there)
    (hended : there.Ended) : level.statements.Gives here found there := by
  refine .many (repeats_of_series hopens ?_ ?_ (.inl hended) h hreads)
  · intro here tokens statement there hderived hreads hfollows
    obtain ⟨first, hnext, -⟩ := (hopens.statement hderived).next hreads
    exact gives_statement? hnext.not_ended (hcomplete.statement hderived hreads hfollows)
  · refine .bind .atEnd ?_
    rw [if_pos (List.isEmpty_iff.2 (Place.ended_iff.1 hended))]
    exact .pure none

/-- A run over a text gives statements exactly when the tokens of the text derive them. -/
theorem parseWithin_eq_ok_iff {limit : Nat} {text : List Char} :
    (∃ stop, parseWithin limit text = .ok found stop) ↔
      ∃ tokens, (Cursor.start text).tokens = .ok tokens ∧ Derives limit tokens found := by
  constructor
  · rintro ⟨stop, hrun⟩
    have hgiven : (Level.ofHeight limit).statements.CanGive (Place.start text) found stop.place :=
      ⟨.start text, stop, rfl, rfl, hrun⟩
    obtain ⟨tokens, hreads, hended, hderives⟩ := (sound_ofHeight limit).statements hgiven
    exact ⟨tokens, hreads.tokens_eq_ok hended, hderives⟩
  · rintro ⟨tokens, htokens, hderives⟩
    obtain ⟨there, hreads, hended⟩ := Reads.start_tokens_eq_ok_iff.1 htokens
    obtain ⟨stop, -, -, hrun⟩ := (complete_ofHeight limit).statements (Phrases.opens_ofHeight limit)
      hderives hreads hended (.start text) rfl
    exact ⟨stop, hrun⟩

/-- Parsing a source text is a run over its characters. -/
theorem Program.parse_run (source : String) :
    Program.parse source = match parseWithin nestingLimit source.toList with
      | .ok statements _ => .ok ⟨statements, ⟨0, source.toList.length⟩⟩
      | .error failure _ => .error (failure.report source.toList) := by
  simp only [Program.parse, Program.parseText]
  cases parseWithin nestingLimit source.toList <;> rfl

/-- The program of a text is what a run over it gives. -/
theorem Program.parse_eq_ok_iff_run {source : String} {program : Program} :
    Program.parse source = .ok program ↔
      program.span = ⟨0, source.toList.length⟩ ∧
        ∃ stop, parseWithin nestingLimit source.toList = .ok program.statements stop := by
  obtain ⟨statements, span⟩ := program
  rw [Program.parse_run]
  cases parseWithin nestingLimit source.toList with
  | ok found stop =>
      constructor
      · intro h
        cases h
        exact ⟨rfl, stop, rfl⟩
      · rintro ⟨rfl, _, h⟩
        cases h
        rfl
  | error failure stop =>
      constructor
      · intro h
        cases h
      · rintro ⟨-, _, h⟩
        cases h

/-- The error of a text that is refused tells of a run that fails. -/
theorem Program.parse_eq_error_iff {source : String} {error : SyntaxError} :
    Program.parse source = .error error ↔ ∃ failure stop,
      parseWithin nestingLimit source.toList = .error failure stop ∧
        failure.report source.toList = error := by
  rw [Program.parse_run]
  cases parseWithin nestingLimit source.toList <;> simp

/-- The tokens of a source text, as its cursor reads them. -/
theorem tokens_eq_ok_iff {source : String} {found : List Token} :
    tokens source = .ok found ↔ (Cursor.start source.toList).tokens = .ok found := by
  simp only [tokens]
  cases (Cursor.start source.toList).tokens <;> simp [Except.mapError]

/-- A source text has no tokens where its cursor comes to a fault. -/
theorem tokens_eq_error_iff {source : String} {error : SyntaxError} :
    tokens source = .error error ↔
      ∃ failure, (Cursor.start source.toList).tokens = .error failure ∧
        failure.report source.toList = error := by
  simp only [tokens]
  cases (Cursor.start source.toList).tokens <;> simp [Except.mapError]

/-- The program of a text is derived from the tokens of the text. -/
theorem Program.derives_of_parse {source : String} {program : Program}
    (h : Program.parse source = .ok program) :
    ∃ found, tokens source = .ok found ∧ Derives nestingLimit found program.statements ∧
      program.span = ⟨0, source.toList.length⟩ := by
  obtain ⟨hspan, hrun⟩ := Program.parse_eq_ok_iff_run.1 h
  obtain ⟨found, hfound, hderives⟩ := parseWithin_eq_ok_iff.1 hrun
  exact ⟨found, tokens_eq_ok_iff.2 hfound, hderives, hspan⟩

/-- The parser accepts a text exactly when the text has tokens and these derive a program with no
more statements and expressions on any path than the limit, and then gives what they derive. -/
theorem Program.parse_eq_ok_iff {source : String} {program : Program} :
    Program.parse source = .ok program ↔
      ∃ found, tokens source = .ok found ∧ Derives nestingLimit found program.statements ∧
        program.span = ⟨0, source.toList.length⟩ := by
  constructor
  · exact Program.derives_of_parse
  · rintro ⟨found, hfound, hderives, hspan⟩
    exact Program.parse_eq_ok_iff_run.2
      ⟨hspan, parseWithin_eq_ok_iff.2 ⟨found, tokens_eq_ok_iff.1 hfound, hderives⟩⟩

end Scriptlet
