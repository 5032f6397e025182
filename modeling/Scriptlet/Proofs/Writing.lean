import Mathlib
import Scriptlet.Proofs.Files

/-!
# Writing a tree to a file

The arguments of `parse` are told apart from the left (`ParseArguments.ofList`), and a misuse
touches no file. A run that is asked for does all of what it is for or nothing: it fails, prints
nothing and leaves the files as they are, or it succeeds, and the text that it would print is then
the content of the file to write, the only one that is changed.
-/

namespace Scriptlet

open Command

/-! ## Arguments -/

/-- The arguments of `parse`: the plain ones, the paths after the options, and whether the last is
an option without a path. -/
structure ParseArguments where
  plain : List String
  outs : List String
  lacksPath : Bool
deriving DecidableEq, Repr

namespace ParseArguments

/-- The arguments with one plain argument more in front. -/
def addPlain (argument : String) (given : ParseArguments) : ParseArguments :=
  { given with plain := argument :: given.plain }

/-- The arguments with one path more to write to in front. -/
def addOut (path : String) (given : ParseArguments) : ParseArguments :=
  { given with outs := path :: given.outs }

/-- Tells arguments apart from the left. An option takes the next argument, whatever that is. -/
def ofList : List String → ParseArguments
  | [] => ⟨[], [], false⟩
  | [argument] =>
    if isOutOption argument then ⟨[], [], true⟩ else ⟨[argument], [], false⟩
  | argument :: path :: rest =>
    if isOutOption argument then (ofList rest).addOut path
    else (ofList (path :: rest)).addPlain argument

/-- What the arguments ask for: a file, of whose paths to write to the last counts. -/
def command (given : ParseArguments) : Except Misuse Command :=
  match given.plain with
  | _ :: second :: _ => .error (.unexpectedArgument second)
  | [file] =>
    if given.lacksPath then .error .missingOutPath else .ok (.parse file given.outs.getLast?)
  | [] => if given.lacksPath then .error .missingOutPath else .error .parseWithoutFile

/-- The arguments after some that were read. -/
def follow (file? out? : Option String) (given : ParseArguments) : ParseArguments :=
  ⟨file?.toList ++ given.plain, out?.toList ++ given.outs, given.lacksPath⟩

/-- Of the paths to write to only the last counts. -/
theorem command_congr {given other : ParseArguments} (hplain : given.plain = other.plain)
    (houts : given.outs.getLast? = other.outs.getLast?)
    (hlacks : given.lacksPath = other.lacksPath) : given.command = other.command := by
  rw [command, command, hplain, houts, hlacks]

/-- Arguments are read as they are told apart. -/
theorem ofParseArguments_eq (file? out? : Option String) (arguments : List String) :
    ofParseArguments file? out? arguments = ((ofList arguments).follow file? out?).command := by
  -- On what is left to read. What was read already stands in front of it.
  fun_induction ofParseArguments file? out? arguments with
  | case1 out? file => cases out? <;> rfl
  | case2 out? => rfl
  | case3 file? out? argument hoption =>
      cases file? <;> simp [ofList, follow, command, hoption]
  | case4 out? argument hplain =>
      rw [ofList, if_neg hplain]
      cases out? <;> rfl
  | case5 out? argument hplain file =>
      rw [ofList, if_neg hplain]
      rfl
  | case6 file? out? argument path rest hoption ih =>
      rw [ih, ofList, if_pos hoption]
      -- A path that was read before is lost on the left, but it is not the last on the right.
      refine command_congr rfl ?_ rfl
      simp [follow, addOut, List.getLast?_cons]
  | case7 out? argument path rest hplain ih =>
      rw [ih, ofList, if_neg hplain]
      rfl
  | case8 out? argument path rest hplain file =>
      rw [ofList, if_neg hplain]
      rfl

/-- A surplus argument is refused, even with an option behind it that has no path. -/
example : ofParseArguments none none ["a", "-o", "b", "c", "-o"] =
    .error (.unexpectedArgument "c") := by decide

/-- Whether arguments ask for nothing: an option has no path, or there is no file, or more than
one. -/
def Misused (given : ParseArguments) : Prop :=
  given.lacksPath = true ∨ given.plain.length ≠ 1

/-- Arguments that ask for nothing are refused. -/
theorem Misused.exists_misuse {given : ParseArguments} (h : given.Misused) :
    ∃ misuse, given.command = .error misuse := by
  obtain ⟨plain, outs, lacksPath⟩ := given
  match plain, lacksPath with
  | _ :: second :: _, _ => exact ⟨.unexpectedArgument second, rfl⟩
  | [_], true | [], true => exact ⟨.missingOutPath, rfl⟩
  | [], false => exact ⟨.parseWithoutFile, rfl⟩
  | [_], false => rcases h with h | h <;> simp at h

/-- One file and no option without a path ask for the parse of the file. -/
theorem command_of_singleton {given : ParseArguments} {file : String}
    (hplain : given.plain = [file]) (hlacks : given.lacksPath = false) :
    given.command = .ok (.parse file given.outs.getLast?) := by
  rw [command, hplain]
  simp [hlacks]

/-- What stands for a file is no option. -/
theorem isOutOption_of_mem_plain {arguments : List String} {argument : String}
    (h : argument ∈ (ofList arguments).plain) : isOutOption argument = false := by
  fun_induction ofList arguments with
  | case1 | case2 => cases h
  | case3 other hplain =>
      cases List.mem_singleton.1 h
      exact Bool.eq_false_iff.2 hplain
  | case4 other path rest hoption ih => exact ih h
  | case5 other path rest hplain ih =>
      rcases List.mem_cons.1 h with rfl | hrest
      · exact Bool.eq_false_iff.2 hplain
      · exact ih hrest

end ParseArguments

/-- What the arguments after `parse` ask for, as they are told apart. -/
theorem Command.ofArguments_parse (arguments : List String) :
    ofArguments ("parse" :: arguments) = (ParseArguments.ofList arguments).command :=
  ParseArguments.ofParseArguments_eq none none arguments

/-! ## Runs -/

/-- The report on writing a file, given what that gives. -/
def Report.ofWrite : Except FileError Unit → Report
  | .ok () => .printed ""
  | .error error => .failed error.line

section

variable {σ : Type} [FileAccess (StateM σ)] [StableFiles σ] {settings : TraceSettings} {files : σ}
  {file source : String} {out? : Option String} {program : Program}

namespace Command

/-- The parse of a file that cannot be read ends there. -/
theorem run_runParse_of_unreadable {error : FileError}
    (h : resultOn files (FileAccess.read file) = .error error) :
    (runParse settings file out? : StateM σ _).run files = (.failed error.line, files) := by
  rw [runParse, run_read_bind, h]
  rfl

variable (hread : resultOn files (FileAccess.read file) = .ok source)

include hread

/-- The parse of a text that is refused ends there. -/
theorem run_runParse_of_refused {error : SyntaxError}
    (hparse : Program.parse source = .error error) :
    (runParse settings file out? : StateM σ _).run files =
      (.after (traceText settings (Program.parseText source.toList).2)
        (.failed (error.render file source.toList)), files) := by
  rw [runParse, run_read_bind, hread]
  simp only [parseThen_eq_conclude, hparse]
  rfl

/-- Without a path to write to, the tree of a program is printed. -/
theorem run_runParse_none (hparse : Program.parse source = .ok program) :
    (runParse settings file none : StateM σ _).run files =
      (.after (traceText settings (Program.parseText source.toList).2) (.ofTree program),
        files) := by
  rw [runParse, run_read_bind, hread]
  simp only [parseThen_eq_conclude, hparse]
  rfl

/-- With a path to write to, all that is left to do is to write what would be printed. -/
theorem run_runParse_some (hparse : Program.parse source = .ok program) (out : String) :
    (runParse settings file (some out) : StateM σ _).run files =
      (.after (traceText settings (Program.parseText source.toList).2)
        (.ofWrite (resultOn files (FileAccess.write out (Report.ofTree program).out))),
        ((FileAccess.write out (Report.ofTree program).out : StateM σ _).run files).2) := by
  rw [runParse, run_read_bind, hread]
  have htext : (Report.ofTree program).out = program.toJson.indented ++ "\n" := rfl
  simp only [parseThen_eq_conclude, hparse, conclude, bind_assoc]
  rw [htext, resultOn, StateT.run_bind]
  rcases (FileAccess.write out (program.toJson.indented ++ "\n") : StateM σ _).run files with
    ⟨result, after⟩
  cases result <;> rfl

end Command

end

/-! ## All or nothing -/

section

variable {σ : Type} [FileAccess (StateM σ)]

/-- Whether a file can be read, holds a program, and the tree of that can be written, if it is to
be. -/
def CanParse (files : σ) (file : String) (out? : Option String) : Prop :=
  ∃ source program, resultOn files (FileAccess.read file) = .ok source ∧
    Program.parse source = .ok program ∧ ∀ out ∈ out?,
      resultOn files (FileAccess.write out (program.toJson.indented ++ "\n")) = .ok ()

/-- A program only has to be written. -/
theorem canParse_iff {files : σ} {file source : String} {out? : Option String} {program : Program}
    (hread : resultOn files (FileAccess.read file) = .ok source)
    (hparse : Program.parse source = .ok program) :
    CanParse files file out? ↔ ∀ out ∈ out?,
      resultOn files (FileAccess.write out (program.toJson.indented ++ "\n")) = .ok () := by
  constructor
  · rintro ⟨other, found, hother, hfound, hwrite⟩
    cases hread.symm.trans hother
    cases hparse.symm.trans hfound
    exact hwrite
  · exact fun hwrite => ⟨source, program, hread, hparse, hwrite⟩

/-- What a run of `parse` reports and leaves of the files, if `alone` is the report without
options. -/
structure AllOrNothing [FileView σ] (files : σ) (file : String) (out? : Option String)
    (alone report : Report) (after : σ) : Prop where
  success_iff : report.success = true ↔ CanParse files file out?
  of_failure : report.success = false → report.out = "" ∧ after = files
  printed : report.success = true → out? = none → report = alone ∧ after = files
  written : report.success = true → ∀ out ∈ out?, report.out = "" ∧ alone.success = true ∧
    Written files out alone.out after ∧ resultOn after (FileAccess.read out) = .ok alone.out

namespace AllOrNothing

variable [FileView σ] {files after : σ} {file out : String} {out? : Option String}
  {alone report : Report}

/-- A run that has to fail prints nothing and changes nothing. -/
theorem of_failed (h : ¬ CanParse files file out?) (hsuccess : report.success = false)
    (hout : report.out = "") : AllOrNothing files file out? alone report files := by
  have hnot : ¬ report.success = true := Bool.eq_false_iff.1 hsuccess
  exact ⟨iff_of_false hnot h, fun _ => ⟨hout, rfl⟩, fun h => absurd h hnot, fun h => absurd h hnot⟩

/-- A run that prints a tree changes nothing. -/
theorem of_printed (h : CanParse files file none) (hsuccess : report.success = true) :
    AllOrNothing files file none report report files := by
  have hnot : ¬ report.success = false := by simp [hsuccess]
  exact ⟨iff_of_true hsuccess h, fun h => absurd h hnot, fun _ _ => ⟨rfl, rfl⟩, by simp⟩

/-- A run that writes a tree prints nothing, and changes one file. -/
theorem of_written [LawfulFiles σ] (h : CanParse files file (some out))
    (hsuccess : report.success = true) (hout : report.out = "") (halone : alone.success = true)
    (hwritten : Written files out alone.out after) :
    AllOrNothing files file (some out) alone report after := by
  have hnot : ¬ report.success = false := by simp [hsuccess]
  refine ⟨iff_of_true hsuccess h, fun h => absurd h hnot, by simp, ?_⟩
  rintro - _ ⟨⟩
  exact ⟨hout, halone, hwritten, hwritten.read_eq⟩

end AllOrNothing

/-- A run of `parse` does all or nothing. -/
theorem Command.allOrNothing_runParse [FileView σ] [LawfulFiles σ] (settings : TraceSettings)
    (files : σ) (file : String) (out? : Option String) :
    ∃ alone report after,
      (runParse settings file none : StateM σ _).run files = (alone, files) ∧
      (runParse settings file out? : StateM σ _).run files = (report, after) ∧
      AllOrNothing files file out? alone report after := by
  cases hread : resultOn files (FileAccess.read file) with
  | error error =>
    refine ⟨_, _, _, run_runParse_of_unreadable hread, run_runParse_of_unreadable hread,
      .of_failed ?_ rfl rfl⟩
    rintro ⟨source, program, hsource, -⟩
    cases hread.symm.trans hsource
  | ok source =>
    cases hparse : Program.parse source with
    | error error =>
      refine ⟨_, _, _, run_runParse_of_refused hread hparse, run_runParse_of_refused hread hparse,
        .of_failed ?_ rfl rfl⟩
      rintro ⟨other, program, hother, hprogram, -⟩
      cases hread.symm.trans hother
      cases hparse.symm.trans hprogram
    | ok program =>
      have hcan (out? : Option String) : CanParse files file out? ↔ _ := canParse_iff hread hparse
      cases out? with
      | none =>
        exact ⟨_, _, _, run_runParse_none hread hparse, run_runParse_none hread hparse,
          .of_printed ((hcan none).2 (by simp)) rfl⟩
      | some out =>
        refine ⟨_, _, _, run_runParse_none hread hparse, run_runParse_some hread hparse out, ?_⟩
        rw [resultOn]
        cases hwrite : (FileAccess.write out (Report.ofTree program).out :
          StateM σ _).run files with
        | mk result after =>
          cases result with
          | error error =>
            rw [LawfulFiles.write_error _ _ _ _ _ hwrite]
            refine .of_failed (fun h => ?_) rfl rfl
            cases (congrArg Prod.fst hwrite).symm.trans ((hcan _).1 h out rfl)
          | ok =>
            refine .of_written ((hcan _).2 ?_) rfl rfl rfl (LawfulFiles.write_ok _ _ _ _ hwrite)
            rintro _ ⟨⟩
            exact congrArg Prod.fst hwrite

end

/-- Parsing to a file is all or nothing. Arguments that ask for nothing are refused before any file
is read or written. Others ask for one file and the last path to write to, wherever the options
stand among them, and the run does all that is asked for or prints and changes nothing. -/
theorem Command.runArguments_parse_allOrNothing {σ : Type} [FileAccess (StateM σ)] [FileView σ]
    [LawfulFiles σ] (settings : TraceSettings) (files : σ) (arguments : List String) :
    ((ParseArguments.ofList arguments).Misused → ∃ misuse : Misuse,
      ∀ {m : Type → Type} [Monad m] [FileAccess m],
        (runArguments settings ("parse" :: arguments) : m Report) =
          pure (.failed misuse.line)) ∧
    ∀ file, (ParseArguments.ofList arguments).plain = [file] →
      (ParseArguments.ofList arguments).lacksPath = false →
      ∃ alone report after,
        (runArguments settings ["parse", file] : StateM σ Report).run files = (alone, files) ∧
        (runArguments settings ("parse" :: arguments) : StateM σ Report).run files =
          (report, after) ∧
        AllOrNothing files file (ParseArguments.ofList arguments).outs.getLast? alone report
          after := by
  refine ⟨fun hmisused => ?_, fun file hplain hlacks => ?_⟩
  · obtain ⟨misuse, hcommand⟩ := hmisused.exists_misuse
    refine ⟨misuse, fun {m} _ _ => ?_⟩
    rw [runArguments, ofArguments_parse, hcommand]
  · have hoption : isOutOption file = false :=
      ParseArguments.isOutOption_of_mem_plain (hplain ▸ List.mem_singleton_self file)
    simp only [isOutOption, Bool.or_eq_false_iff, beq_eq_false_iff_ne] at hoption
    have hcommand := ParseArguments.command_of_singleton hplain hlacks
    rw [runArguments_parse settings hoption.2 hoption.1, runArguments, ofArguments_parse, hcommand]
    exact allOrNothing_runParse settings files file _

/-- A path to write to that is an option, after the file and another path. -/
theorem Command.runArguments_parse_allOrNothing_store :
    ∃ (files : Store) (alone report : Report) (after : Store),
      ParseArguments.ofList ["-o", "b", "a", "--out", "-o"] = ⟨["a"], ["b", "-o"], false⟩ ∧
      (runArguments ⟨true, true⟩ ["parse", "-o", "b", "a", "--out", "-o"] :
        StateM Store Report).run files = (report, after) ∧
      AllOrNothing files "a" (some "-o") alone report after ∧
      report.success = true ∧ Written files "-o" alone.out after := by
  obtain ⟨files, hread, hwrite⟩ : ∃ files : Store,
      resultOn files (FileAccess.read "a") = .ok "f();" ∧
      ∀ text, resultOn files (FileAccess.write "-o" text) = .ok () :=
    ⟨⟨[(⟨false, ["a"]⟩, .file "f();".toUTF8)]⟩, by cbv, fun text => by cbv⟩
  obtain ⟨-, hrun⟩ := Command.runArguments_parse_allOrNothing ⟨true, true⟩ files
    ["-o", "b", "a", "--out", "-o"]
  obtain ⟨alone, report, after, -, hreport, hall⟩ := hrun "a" rfl rfl
  have haccepted : (Program.parse "f();").isOk = true := by decide +kernel
  cases hparse : Program.parse "f();" with
  | error error => rw [hparse] at haccepted; cases haccepted
  | ok program =>
    have hcan : CanParse files "a" (some "-o") := by
      refine (canParse_iff hread hparse).2 ?_
      rintro _ ⟨⟩
      exact hwrite _
    have hsuccess := hall.success_iff.2 hcan
    exact ⟨files, alone, report, after, rfl, hreport, hall, hsuccess,
      (hall.written hsuccess "-o" rfl).2.2.1⟩

end Scriptlet
