import Mathlib
import Scriptlet.Command.Run
import Scriptlet.Files.Store
import Scriptlet.Proofs.Exactness

/-!
# The entry points agree

Reading a program from a file, and the commands that print the tree of a file, print its tokens and
check it, are four ways into one file. Each reads the file once and touches nothing else, so each is
a function of what the reading gives (`Content`), and `Command.entryPoints_agree` compares these
functions. That a program has tokens to print is what the grammar of programs gives.
-/

namespace Scriptlet

/-- What reading a file gives. -/
abbrev Content := Except FileError String

/-- The program in a file, or why there is none. -/
def Content.load : Content → Except LoadError Program
  | .ok source => (Program.parse source).mapError .refused
  | .error error => .error (.unreadable error)

namespace Report

/-- The report on a file that can be read as `use` says, and on why a file cannot be read. -/
def ofContent (use : String → Report) : Content → Report
  | .ok source => use source
  | .error error => .failed error.line

/-- The report on the parse of a text: on its program as `use` says, or on the refusal. -/
def ofParse (settings : TraceSettings) (path : String) (use : Program → Report)
    (source : String) : Report :=
  .after (traceText settings (Program.parseText source.toList).2) <|
    match Program.parse source with
    | .ok program => use program
    | .error error => .failed (error.render path source.toList)

/-- The report on the tokens of a text. -/
def ofTokens (path source : String) : Report :=
  match tokens source with
  | .ok found => .printed ((Json.array (found.map Token.toJson)).indented ++ "\n")
  | .error error => .failed (error.render path source.toList)

/-- The report that prints a tree. -/
def ofTree (program : Program) : Report :=
  .printed (program.toJson.indented ++ "\n")

/-- The report that a file holds a program. -/
def ofCheck (path : String) (_program : Program) : Report :=
  .printed ("ok " ++ path ++ "\n")

@[simp] theorem success_after (text : String) (report : Report) :
    (report.after text).success = report.success := rfl

@[simp] theorem out_after (text : String) (report : Report) :
    (report.after text).out = report.out := rfl

@[simp] theorem err_after (text : String) (report : Report) :
    (report.after text).err = text ++ report.err := rfl

@[simp] theorem andThen_printed_empty (report : Report) :
    report.andThen (.printed "") = report := by
  simp [andThen, printed]

variable {settings : TraceSettings} {path source : String} {use : Program → Report}
  {program : Program} {error : SyntaxError}

theorem ofParse_of_ok (h : Program.parse source = .ok program) :
    ofParse settings path use source =
      .after (traceText settings (Program.parseText source.toList).2) (use program) := by
  rw [ofParse, h]

theorem ofParse_of_error (h : Program.parse source = .error error) :
    ofParse settings path use source =
      .after (traceText settings (Program.parseText source.toList).2)
        (.failed (error.render path source.toList)) := by
  rw [ofParse, h]

end Report

section Runs

variable {m : Type → Type} [Monad m]

/-- What is done with the result of a parse: a program goes on to `use`, and a refusal is
rendered. -/
def conclude (path source : String) (use : Program → m Report) :
    Except SyntaxError Program → m Report
  | .ok program => use program
  | .error error => pure (.failed (error.render path source.toList))

/-- Whatever is asked for, the same result is gone on with. -/
theorem parseThen_eq_conclude (settings : TraceSettings) (path source : String)
    (use : Program → m Report) :
    parseThen settings path source use =
      conclude path source use (Program.parse source) >>= fun report =>
        pure (report.after (traceText settings (Program.parseText source.toList).2)) := by
  simp only [parseThen, Program.parse]
  cases (Program.parseText source.toList).1 <;> rfl

variable [LawfulMonad m]

/-- Going on without any effect maps the result. -/
theorem bind_eq_map_of_pure {α β : Type} {action : m α} {next : α → m β} {f : α → β}
    (h : ∀ value, next value = pure (f value)) : action >>= next = f <$> action := by
  rw [map_eq_pure_bind]
  exact bind_congr h

/-- Where a program is only reported on, the parse of a text touches no file. -/
theorem parseThen_pure (settings : TraceSettings) (path source : String)
    (use : Program → Report) :
    parseThen settings path source (fun program => pure (use program) : Program → m Report) =
      pure (Report.ofParse settings path use source) := by
  rw [parseThen_eq_conclude, Report.ofParse]
  cases Program.parse source <;> simp [conclude]

variable [FileAccess m]

/-- Reading a program from a file reads the file once. -/
theorem parseFile_eq (path : String) :
    (parseFile path : m _) = Content.load <$> FileAccess.read path :=
  bind_eq_map_of_pure fun content => by cases content <;> rfl

namespace Command

/-- Printing the tree of a file reads the file once. -/
theorem runParse_eq (settings : TraceSettings) (path : String) :
    (runParse settings path none : m _) =
      Report.ofContent (Report.ofParse settings path Report.ofTree) <$> FileAccess.read path :=
  bind_eq_map_of_pure fun content => by
    cases content with
    | error error => rfl
    | ok source => exact parseThen_pure settings path source Report.ofTree

/-- Printing the tokens of a file reads the file once. -/
theorem runLex_eq (path : String) :
    (runLex path : m _) = Report.ofContent (Report.ofTokens path) <$> FileAccess.read path :=
  bind_eq_map_of_pure fun content => by
    cases content with
    | error error => rfl
    | ok source =>
      simp only [Report.ofContent, Report.ofTokens]
      cases tokens source <;> rfl

/-- Checking one file reads the file once. -/
theorem runCheck_singleton_eq (settings : TraceSettings) (path : String) :
    (runCheck settings [path] : m _) =
      Report.ofContent (Report.ofParse settings path (Report.ofCheck path)) <$>
        FileAccess.read path :=
  bind_eq_map_of_pure fun content => by
    cases content with
    | error error => rfl
    | ok source =>
      have hparse := parseThen_pure (m := m) settings path source (Report.ofCheck path)
      simp only [Report.ofCheck] at hparse
      simp [runCheck, hparse, Report.ofContent]

omit [LawfulMonad m] in
/-- A path that is no option is the file that `parse` asks for. -/
theorem runArguments_parse (settings : TraceSettings) {path : String} (hshort : path ≠ "-o")
    (hlong : path ≠ "--out") :
    (runArguments settings ["parse", path] : m _) = runParse settings path none := by
  simp [runArguments, ofArguments, ofParseArguments, isOutOption, hshort, hlong, run]

end Command

end Runs

/-- What the entry points make of a file, given what reading it gives: `loaded` is what a program
that reads it gets, the others are what the three commands on it report. -/
structure EntryPointsAgree (path : String) (content : Content)
    (loaded : Except LoadError Program) (parsed lexed checked : Report) : Prop where
  parsed_iff : parsed.success = true ↔ ∃ program, loaded = .ok program
  checked_iff : checked.success = true ↔ ∃ program, loaded = .ok program
  of_program : ∀ program, loaded = .ok program →
    parsed.out = program.toJson.indented ++ "\n" ∧ checked.out = "ok " ++ path ++ "\n" ∧
      lexed.success = true
  of_refused : ∀ error, loaded = .error (.refused error) →
    parsed.success = false ∧ checked.success = false ∧ parsed.out = "" ∧ checked.out = "" ∧
      parsed.err = checked.err
  of_unreadable : ∀ error, content = .error error →
    loaded = .error (.unreadable error) ∧ ∀ report ∈ [parsed, lexed, checked],
      report.success = false ∧ report.out = "" ∧
        report.err = (LoadError.unreadable error).line ++ "\n"
  of_readable : ∀ source, content = .ok source → loaded = (Program.parse source).mapError .refused

/-- The tokens of a program are printed. -/
theorem Report.success_ofTokens {source : String} {program : Program} (path : String)
    (h : Program.parse source = .ok program) : (Report.ofTokens path source).success = true := by
  obtain ⟨found, hfound, -⟩ := Program.derives_of_parse h
  rw [Report.ofTokens, hfound]
  rfl

/-- The entry points agree on whatever reading the file gives. -/
theorem Content.entryPointsAgree (settings : TraceSettings) (path : String) (content : Content) :
    EntryPointsAgree path content content.load
      (.ofContent (.ofParse settings path Report.ofTree) content)
      (.ofContent (.ofTokens path) content)
      (.ofContent (.ofParse settings path (Report.ofCheck path)) content) := by
  cases content with
  | error error =>
      constructor <;> simp [Content.load, Report.ofContent, Report.failed, LoadError.line]
  | ok source =>
      cases hparse : Program.parse source with
      | ok program =>
          have hlexed := Report.success_ofTokens path hparse
          constructor <;>
            simp [Content.load, Report.ofContent, Report.ofParse_of_ok hparse, Report.ofTree,
              Report.ofCheck, Report.printed, hparse, hlexed, Except.mapError]
      | error error =>
          constructor <;>
            simp [Content.load, Report.ofContent, Report.ofParse_of_error hparse, Report.failed,
              hparse, Except.mapError]

/-- What an action on a file system gives. -/
def resultOn {σ α : Type} (files : σ) (action : StateM σ α) : α :=
  (action.run files).1

/-- On every file system, reading a program from a file and the commands on that file agree. -/
theorem Command.entryPoints_agree {σ : Type} [FileAccess (StateM σ)] (settings : TraceSettings)
    (files : σ) {path : String} (hshort : path ≠ "-o") (hlong : path ≠ "--out") :
    EntryPointsAgree path (resultOn files (FileAccess.read path))
      (resultOn files (parseFile path))
      (resultOn files (runArguments settings ["parse", path]))
      (resultOn files (runArguments settings ["lex", path]))
      (resultOn files (runArguments settings ["check", path])) := by
  have hlex : (runArguments settings ["lex", path] : StateM σ _) = runLex path := rfl
  have hcheck : (runArguments settings ["check", path] : StateM σ _) =
    runCheck settings [path] := rfl
  rw [runArguments_parse settings hshort hlong, hlex, hcheck, parseFile_eq, runParse_eq, runLex_eq,
    runCheck_singleton_eq]
  exact Content.entryPointsAgree settings path _

set_option maxRecDepth 4000 in
/-- On a file that holds a program, all entry points succeed. -/
theorem Command.entryPoints_agree_store :
    ∃ files : Store, ("a.js" ≠ "-o" ∧ "a.js" ≠ "--out") ∧
      resultOn files (FileAccess.read "a.js") = .ok "f();" ∧
      EntryPointsAgree "a.js" (resultOn files (FileAccess.read "a.js"))
        (resultOn files (parseFile "a.js"))
        (resultOn files (runArguments ⟨true, true⟩ ["parse", "a.js"]))
        (resultOn files (runArguments ⟨true, true⟩ ["lex", "a.js"]))
        (resultOn files (runArguments ⟨true, true⟩ ["check", "a.js"])) := by
  have hread : resultOn (Store.empty.addFile "a.js" "f();".toUTF8) (FileAccess.read "a.js") =
    .ok "f();" := by cbv
  exact ⟨_, by decide, hread, Command.entryPoints_agree _ _ (by decide) (by decide)⟩

end Scriptlet
