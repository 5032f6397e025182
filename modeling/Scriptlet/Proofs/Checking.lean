import Mathlib
import Scriptlet.Proofs.Files
import Scriptlet.Proofs.Tracing

/-!
# Checking files

Files are checked one after another, up to the first that cannot be read. What is reported is told
of the whole list of paths (`ChecksFiles`): a line for every file that holds a program, a diagnostic
for every file that is refused, and one line more if a file cannot be read. Whether all went well
depends on the files alone, in whatever order they are given.
-/

namespace Scriptlet

/-- The diagnostic of a text that is refused, under the path of its file. -/
def Content.diagnostic? (path : String) : Content → Option String
  | .ok source =>
    match Program.parse source with
    | .ok _ => none
    | .error error => some (error.render path source.toList)
  | .error _ => none

/-- Why a file cannot be read. -/
def Content.unreadable? : Content → Option FileError
  | .ok _ => none
  | .error error => some error

namespace Report

/-- The report on files, given what reading each gives. It ends with the first that cannot be
read. -/
def ofFiles (settings : TraceSettings) (look : String → Content) : List String → Report
  | [] => .printed ""
  | path :: rest =>
    match look path with
    | .error error => .failed error.line
    | .ok source =>
      (ofParse settings path (ofCheck path) source).andThen (ofFiles settings look rest)

variable {settings : TraceSettings} {look : String → Content} {path source : String}
  {paths : List String}

/-- The report on files goes on after a text. -/
theorem ofFiles_cons_of_ok (h : look path = .ok source) :
    ofFiles settings look (path :: paths) =
      (ofParse settings path (ofCheck path) source).andThen (ofFiles settings look paths) := by
  rw [ofFiles, h]

/-- The report on files ends where there is no text. -/
theorem ofFiles_cons_of_error {error : FileError} (h : look path = .error error) :
    ofFiles settings look (path :: paths) = .failed error.line := by
  rw [ofFiles, h]

end Report

section

variable (look : String → Content)

/-- The paths to texts, up to the first path that leads to none. -/
def readablePaths (paths : List String) : List String :=
  paths.takeWhile fun path => (look path).isOk

/-- What a report tells of files, given what reading each gives. -/
structure ChecksFiles (paths : List String) (report : Report) : Prop where
  out_eq : report.out = String.join (((readablePaths look paths).filter
    fun path => (look path).load.isOk).map fun path => "ok " ++ path ++ "\n")
  err_eq : report.err = String.join (((readablePaths look paths).filterMap
      fun path => (look path).diagnostic? path).map (· ++ "\n")) ++
    String.join ((paths.findSome? fun path => (look path).unreadable?).toList.map
      fun error => error.line ++ "\n")
  success_iff : report.success = true ↔ ∀ path ∈ paths, (look path).load.isOk = true

end

namespace ChecksFiles

variable {look : String → Content} {path source : String} {paths : List String} {report : Report}

/-- With a file that cannot be read, a report ends. -/
theorem cons_unreadable {error : FileError} (h : look path = .error error) :
    ChecksFiles look (path :: paths) (.failed error.line) := by
  have htext : (look path).isOk = false := by rw [h]; rfl
  have hprogram : (look path).load.isOk = false := by rw [h]; rfl
  have hunreadable : (look path).unreadable? = some error := by rw [h]; rfl
  constructor
  · simp [Report.failed, readablePaths, htext]
  · simp [Report.failed, readablePaths, htext, hunreadable]
  · simp [Report.failed, hprogram]

/-- A text that is refused has a diagnostic. -/
theorem cons_refused {error : SyntaxError} (h : look path = .ok source)
    (hparse : Program.parse source = .error error) (hrest : ChecksFiles look paths report) :
    ChecksFiles look (path :: paths)
      ((Report.failed (error.render path source.toList)).andThen report) := by
  have htext : (look path).isOk = true := by rw [h]; rfl
  have hprogram : (look path).load.isOk = false := by rw [h, Content.load, hparse]; rfl
  have hunreadable : (look path).unreadable? = none := by rw [h]; rfl
  have hdiagnostic : (look path).diagnostic? path = some (error.render path source.toList) := by
    rw [h, Content.diagnostic?, hparse]
  constructor
  · simp [Report.andThen, Report.failed, readablePaths, htext, hprogram, hrest.out_eq]
  · simp [Report.andThen, Report.failed, readablePaths, htext, hdiagnostic, hunreadable,
      hrest.err_eq, String.append_assoc]
  · simp [Report.andThen, Report.failed, hprogram]

/-- A program has a line with its path. -/
theorem cons_program {program : Program} (h : look path = .ok source)
    (hparse : Program.parse source = .ok program) (hrest : ChecksFiles look paths report) :
    ChecksFiles look (path :: paths) ((Report.ofCheck path program).andThen report) := by
  have htext : (look path).isOk = true := by rw [h]; rfl
  have hprogram : (look path).load.isOk = true := by rw [h, Content.load, hparse]; rfl
  have hunreadable : (look path).unreadable? = none := by rw [h]; rfl
  have hdiagnostic : (look path).diagnostic? path = none := by
    rw [h, Content.diagnostic?, hparse]
  constructor
  · simp [Report.andThen, Report.ofCheck, Report.printed, readablePaths, htext, hprogram,
      hrest.out_eq, String.append_assoc]
  · simp [Report.andThen, Report.ofCheck, Report.printed, readablePaths, htext, hdiagnostic,
      hunreadable, hrest.err_eq]
  · simp [Report.andThen, Report.ofCheck, Report.printed, hprogram, hrest.success_iff]

end ChecksFiles

/-- The report without a trace tells of files. -/
theorem Report.checksFiles_ofFiles (look : String → Content) (paths : List String) :
    ChecksFiles look paths (.ofFiles .off look paths) := by
  induction paths with
  | nil => exact ⟨rfl, rfl, by simp [ofFiles, printed]⟩
  | cons path paths ih =>
    cases hlook : look path with
    | error error =>
      rw [ofFiles_cons_of_error hlook]
      exact .cons_unreadable hlook
    | ok source =>
      rw [ofFiles_cons_of_ok hlook]
      cases hparse : Program.parse source with
      | error error =>
        rw [ofParse_of_error hparse, traceText_off, after_empty]
        exact .cons_refused hlook hparse ih
      | ok program =>
        rw [ofParse_of_ok hparse, traceText_off, after_empty]
        exact .cons_program hlook hparse ih

/-- Checking files reads one after another, and leaves them as they are. -/
theorem Command.run_runCheck {σ : Type} [FileAccess (StateM σ)] [StableFiles σ]
    (settings : TraceSettings) (files : σ) (paths : List String) :
    (runCheck settings paths : StateM σ _).run files =
      (Report.ofFiles settings (fun path => resultOn files (FileAccess.read path)) paths,
        files) := by
  induction paths with
  | nil => rfl
  | cons path paths ih =>
    rw [runCheck, run_read_bind]
    cases hlook : resultOn files (FileAccess.read path) with
    | error error =>
      rw [Report.ofFiles_cons_of_error hlook]
      rfl
    | ok source =>
      -- The parse of a text touches no file, so the rest is checked on the files as they were.
      have hparse := parseThen_pure (m := StateM σ) settings path source (Report.ofCheck path)
      simp only [Report.ofCheck] at hparse
      rw [Report.ofFiles_cons_of_ok hlook]
      simp only [hparse, pure_bind, StateT.run_bind, ih]
      rfl

/-- Paths after `check` are those of the files to check. -/
theorem Command.runArguments_check_eq {m : Type → Type} [Monad m] [FileAccess m]
    (settings : TraceSettings) {paths : List String} (hne : paths ≠ []) :
    (runArguments settings ("check" :: paths) : m _) = runCheck settings paths := by
  obtain ⟨path, rest, rfl⟩ := List.exists_cons_of_ne_nil hne
  rfl

/-- Checking tells of every file up to the first that cannot be read, and leaves all files as they
are. It succeeds if every file holds a program, so the order of the paths makes no difference to
that. -/
theorem Command.runArguments_check {σ : Type} [FileAccess (StateM σ)] [StableFiles σ] (files : σ)
    {paths : List String} (hne : paths ≠ []) :
    ∃ report, (runArguments .off ("check" :: paths) : StateM σ Report).run files =
        (report, files) ∧
      ChecksFiles (fun path => resultOn files (FileAccess.read path)) paths report ∧
      ∀ others : List String, others.Perm paths →
        (resultOn files (runArguments .off ("check" :: others))).success = report.success := by
  have hchecks := Report.checksFiles_ofFiles fun path => resultOn files (FileAccess.read path)
  refine ⟨_, ?_, hchecks paths, fun others hperm => ?_⟩
  · rw [runArguments_check_eq .off hne, run_runCheck]
  · have hothers : others ≠ [] := by
      rintro rfl
      exact hne (List.nil_perm.1 hperm)
    rw [resultOn, runArguments_check_eq .off hothers, run_runCheck, Bool.eq_iff_iff,
      (hchecks others).success_iff, (hchecks paths).success_iff]
    exact forall_congr' fun path => imp_congr_left hperm.mem_iff

/-- A program, a text that is refused, the program again, and a path that leads nowhere. -/
theorem Command.runArguments_check_store :
    ∃ files : Store, ∃ report, ["a", "b", "a", "c", "a"] ≠ [] ∧
      (runArguments .off ["check", "a", "b", "a", "c", "a"] : StateM Store Report).run files =
        (report, files) ∧
      ChecksFiles (fun path => resultOn files (FileAccess.read path)) ["a", "b", "a", "c", "a"]
        report ∧
      report.success = false ∧ report.out = "ok a\nok a\n" := by
  obtain ⟨files, hprogram, hrefused, hmissing⟩ : ∃ files : Store,
      resultOn files (FileAccess.read "a") = .ok "f();" ∧
      resultOn files (FileAccess.read "b") = .ok "f(" ∧
      resultOn files (FileAccess.read "c") = .error .missing :=
    ⟨⟨[(⟨false, ["a"]⟩, .file "f();".toUTF8), (⟨false, ["b"]⟩, .file "f(".toUTF8)]⟩,
      by cbv, by cbv, by cbv⟩
  obtain ⟨report, hrun, hchecks, -⟩ := Command.runArguments_check files
    (show ["a", "b", "a", "c", "a"] ≠ [] by decide)
  have haccepted : (Content.load (.ok "f();")).isOk = true := by decide +kernel
  have hdenied : (Content.load (.ok "f(")).isOk = false := by decide +kernel
  refine ⟨files, report, by decide, hrun, hchecks, ?_, ?_⟩
  · refine Bool.eq_false_iff.2 fun hsuccess => ?_
    have hall := hchecks.success_iff.1 hsuccess "b" (by decide)
    simp [hrefused, hdenied] at hall
  · have hfront : readablePaths (fun path => resultOn files (FileAccess.read path))
        ["a", "b", "a", "c", "a"] = ["a", "b", "a"] := by
      simp [readablePaths, hprogram, hrefused, hmissing, Except.isOk,
        Except.toBool]
    rw [hchecks.out_eq, hfront]
    simp [hprogram, hrefused, haccepted, hdenied]

end Scriptlet
