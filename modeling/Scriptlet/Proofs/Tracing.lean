import Mathlib
import Scriptlet.Proofs.Announcing
import Scriptlet.Proofs.EntryPoints
import Scriptlet.Proofs.Rendering

/-!
# What a trace shows

A trace shows a part of what a parse has noted, so asking for it changes nothing but the text that
is reported first, which is the lines of the trace, each ended by a line feed. Of a text that is
accepted, no line holds a line feed itself, and the lines about declarations are those of the
declarations of its tree, in the order in which these stop.
-/

namespace Scriptlet

/-! ## Lines about declarations -/

/-- Whether a line of a trace is about a declaration. -/
def isDeclarationLine (line : String) : Bool :=
  "[MINIJS_TRACE_PARSE] ".toList.isPrefixOf line.toList

/-- The line about a declaration. -/
def Statement.traceLine? : Statement → Option String
  | .variableDeclaration modifier name initializer _ =>
    some ("[MINIJS_TRACE_PARSE] " ++ modifier.word ++ " " ++ name.text ++ " (initialized: " ++
      toString initializer.isSome ++ ")")
  | .functionDeclaration name parameters body _ =>
    some ("[MINIJS_TRACE_PARSE] function " ++ name.text ++ " (" ++ toString parameters.length ++
      " parameters, " ++ toString body.length ++ " statements)")
  | .expression _ => none

theorem Statement.isSome_traceLine? (statement : Statement) :
    statement.traceLine?.isSome = statement.isDeclaration := by
  cases statement <;> rfl

/-- The settings that ask for declarations alone. -/
def TraceSettings.forDeclarations : TraceSettings := ⟨false, true⟩

/-- The settings that ask for nothing. -/
def TraceSettings.off : TraceSettings := ⟨false, false⟩

/-- The line about a declaration is that of its event. -/
theorem Statement.traceLine?_eq (statement : Statement) :
    statement.event?.bind (Event.line? .forDeclarations) = statement.traceLine? := by
  cases statement <;> rfl

/-- The events of declarations, if they are asked for, are those with lines about declarations. -/
theorem Event.filter_line? (settings : TraceSettings) (event : Event) :
    (event.line? settings).filter isDeclarationLine =
      if settings.declarations && event.isDeclaration then event.line? .forDeclarations
      else none := by
  obtain ⟨tokens, declarations⟩ := settings
  cases event with
  | opened | closed => simp [line?, isDeclaration]
  | token token => cases tokens <;> simp [line?, isDeclaration, isDeclarationLine]
  | variableDeclared | functionDeclared =>
    cases declarations <;>
      simp [line?, isDeclaration, isDeclarationLine, TraceSettings.forDeclarations]

theorem TraceSettings.filter_lines (settings : TraceSettings) (journal : List Event) :
    (settings.lines journal).filter isDeclarationLine =
      if settings.declarations then
        (Event.announced journal).filterMap (Event.line? .forDeclarations)
      else [] := by
  rw [lines, List.filter_filterMap, Event.announced, ← List.filter_reverse, List.filterMap_filter]
  simp only [Event.filter_line?]
  cases settings.declarations <;> simp

/-- The lines about the declarations of some nodes. -/
theorem Node.filterMap_announcements (nodes : List Node) :
    (announcements nodes).filterMap (Event.line? .forDeclarations) =
      (nodes.flatMap declared).filterMap Statement.traceLine? := by
  rw [announcements, List.filterMap_filterMap]
  exact congrArg (List.filterMap · _) (funext Statement.traceLine?_eq)

theorem Program.map_traceLine? (program : Program) :
    (program.declared.filterMap Statement.traceLine?).map some =
      program.declared.map Statement.traceLine? := by
  rw [List.map_filterMap_some_eq_filter_map_isSome]
  refine List.filter_eq_self.2 (List.forall_mem_map.2 fun statement hmem => ?_)
  rw [Statement.isSome_traceLine?]
  exact (Program.mem_declared_iff.1 hmem).2

/-- The lines about declarations that the trace of a program shows, if they are asked for, are those
of the declarations of its tree. -/
theorem Program.filter_lines {source : String} {program : Program}
    (h : Program.parse source = .ok program) (settings : TraceSettings) :
    ((settings.lines (Program.parseText source.toList).2).filter isDeclarationLine).map some =
      if settings.declarations then program.declared.map Statement.traceLine? else [] := by
  obtain ⟨-, stop, hrun⟩ := Program.parse_eq_ok_iff_run.1 h
  have hjournal : (Program.parseText source.toList).2 = stop.journal := by
    rw [Program.parseText, hrun]
  rw [hjournal, TraceSettings.filter_lines, parseWithin_announced hrun,
    Node.filterMap_announcements, List.flatMap_map]
  cases settings.declarations with
  | false => rfl
  | true => exact program.map_traceLine?

/-! ## Lines without line feeds -/

theorem Modifier.oneLine_word (modifier : Modifier) : OneLine modifier.word := by
  cases modifier <;> decide

theorem Kind.oneLine_traceName (kind : Kind) : OneLine kind.traceName := by
  cases kind <;> decide +kernel

theorem OneLine.toString_bool (value : Bool) : OneLine (ToString.toString value) := by
  cases value <;> decide

/-- The name of a declaration is one of its tokens. -/
theorem Phrases.IsName.oneLine {tokens : List Token} {name : Name} (h : IsName tokens name)
    (htokens : ∀ token ∈ tokens, OneLine token.text) : OneLine name.text := by
  cases h with
  | intro => exact htokens _ (List.mem_singleton.2 rfl)

/-- The line about a declaration quotes nothing of the text but a name. -/
theorem Phrases.IsBody.oneLine_traceLine {below : Phrases} {tokens : List Token}
    {statement : Statement} (h : below.IsBody tokens statement)
    (htokens : ∀ token ∈ tokens, OneLine token.text) :
    ∀ line ∈ statement.traceLine?, OneLine line := by
  -- The tokens of the name stand right behind the keyword.
  have hbehind {keyword : Token} {part rest : List Token} (h : tokens = keyword :: (part ++ rest)) :
      ∀ token ∈ part, OneLine token.text := fun token hmem =>
    htokens token (h ▸ List.mem_cons_of_mem _ (List.mem_append_left _ hmem))
  intro line hline
  cases h with
  | declaration _ _ _ hname _ | initialized _ _ hname _ _ _ =>
      obtain rfl := Option.some.inj hline
      have htext := hname.oneLine (hbehind rfl)
      simp +decide only [OneLine.append_iff, Modifier.oneLine_word, htext, OneLine.toString_bool]
  | function _ _ hname _ _ _ =>
      obtain rfl := Option.some.inj hline
      have htext := hname.oneLine (hbehind rfl)
      simp +decide only [OneLine.append_iff, htext, OneLine.toString]
  | expression => cases hline

/-- A line that is not about a declaration is about a token. -/
theorem Event.line?_cases {settings : TraceSettings} {event : Event} {line : String}
    (h : event.line? settings = some line) :
    isDeclarationLine line = true ∨ ∃ token, event = .token token ∧
      line = "[MINIJS_TRACE_LEX] " ++ token.kind.traceName ++ " `" ++ token.text ++ "` at " ++
        toString token.span.offset := by
  cases event with
  | opened | closed => cases h
  | token token =>
      simp only [line?, Option.ite_none_right_eq_some, Option.some.injEq] at h
      exact .inr ⟨token, rfl, h.2.symm⟩
  | variableDeclared | functionDeclared =>
      simp only [line?, Option.ite_none_right_eq_some, Option.some.injEq] at h
      obtain ⟨-, rfl⟩ := h
      exact .inl (by simp [isDeclarationLine])

/-- No token that a parse takes holds a line feed, whether the text is accepted or not. -/
theorem Program.oneLine_of_taken {source : String} {token : Token}
    (h : Event.token token ∈ (Program.parseText source.toList).2) : OneLine token.text := by
  have hreading := run_reads nestingLimit source.toList
  rw [Program.journal_eq] at h
  cases hrun : parseWithin nestingLimit source.toList with
  | ok _ stop | error _ stop =>
      rw [hrun] at hreading h
      have htaken : token ∈ tokensTaken stop.journal :=
        List.mem_reverse.2 (List.mem_filterMap.2 ⟨_, h, rfl⟩)
      exact Reads.oneLine hreading.1 token htaken

/-- The lines of the trace of a program hold no line feed. -/
theorem Program.oneLine_lines {source : String} {program : Program}
    (h : Program.parse source = .ok program) (settings : TraceSettings) :
    ∀ line ∈ settings.lines (Program.parseText source.toList).2, OneLine line := by
  intro line hline
  obtain ⟨event, hevent, hsome⟩ := List.mem_filterMap.1 hline
  rcases Event.line?_cases hsome with hdeclares | ⟨token, rfl, rfl⟩
  · -- The line is that of a declaration of the tree, which is derived from tokens of the text.
    have hmem : some line ∈ ((settings.lines (Program.parseText source.toList).2).filter
        isDeclarationLine).map some := List.mem_map_of_mem (List.mem_filter.2 ⟨hline, hdeclares⟩)
    rw [Program.filter_lines h] at hmem
    split at hmem
    · obtain ⟨statement, hstatement, htrace⟩ := List.mem_map.1 hmem
      obtain ⟨found, hfound, hderives, -⟩ := Program.derives_of_parse h
      obtain ⟨_, hreads, -⟩ := Reads.start_tokens_eq_ok_iff.1 (tokens_eq_ok_iff.1 hfound)
      obtain ⟨height, part, hpart, hbody⟩ :=
        hderives.node_from (Program.mem_declared_iff.1 hstatement).1
      exact hbody.oneLine_traceLine
        (fun token hmem => hreads.oneLine token (hpart.subset hmem)) line htrace
    · cases hmem
  · have htext := Program.oneLine_of_taken (List.mem_reverse.1 hevent)
    simp +decide only [OneLine.append_iff, Kind.oneLine_traceName, htext, OneLine.toString]

/-! ## Runs with and without a trace -/

/-- Where nothing is asked for, nothing is shown. -/
theorem traceText_off (journal : List Event) : traceText .off journal = "" := by
  have hlines : TraceSettings.off.lines journal = [] :=
    List.filterMap_eq_nil_iff.2 fun event _ => by cases event <;> rfl
  rw [traceText, hlines]
  rfl

@[simp] theorem Report.after_empty (report : Report) : report.after "" = report := by
  simp [after]

/-- Where nothing is asked for, there is nothing in front of a report. -/
theorem parseThen_off {m : Type → Type} [Monad m] [LawfulMonad m] (path source : String)
    (use : Program → m Report) :
    parseThen .off path source use = conclude path source use (Program.parse source) := by
  simp [parseThen_eq_conclude, traceText_off]

/-- Tracing changes nothing, and shows the declarations of the tree. With any settings, a program
that touches files through `m` goes on with the same result, and only reports the text of the trace
first, on the stream for errors: the lines of the trace, each ended by a line feed. Of a text that
is accepted, no line holds a line feed itself, and the lines about declarations are one for each
declaration of the tree, at any depth, in the order in which these stop. -/
theorem Program.trace_eq_declarations {m : Type → Type} [Monad m] [LawfulMonad m]
    (source : String) :
    (∀ (settings : TraceSettings) (path : String) (use : Program → m Report),
      parseThen settings path source use =
        (fun report : Report => { report with
          err := traceText settings (Program.parseText source.toList).2 ++ report.err }) <$>
            parseThen .off path source use) ∧
    (∀ settings : TraceSettings, traceText settings (Program.parseText source.toList).2 =
      String.join ((settings.lines (Program.parseText source.toList).2).map (· ++ "\n"))) ∧
    (∀ (path : String) (use : Program → m Report),
      parseThen .off path source use = conclude path source use (Program.parse source)) ∧
    ∀ program, Program.parse source = .ok program →
      (∀ statement, statement ∈ program.declared ↔
        program.HasNode (.statement statement) ∧ statement.isDeclaration = true) ∧
      Statement.Increasing program.declared ∧
      (∀ settings : TraceSettings,
        ∀ line ∈ settings.lines (Program.parseText source.toList).2, OneLine line) ∧
      ∀ settings : TraceSettings,
        ((settings.lines (Program.parseText source.toList).2).filter isDeclarationLine).map some =
          if settings.declarations then program.declared.map Statement.traceLine? else [] := by
  refine ⟨fun settings path use => ?_, fun settings => rfl,
    fun path use => parseThen_off path source use,
    fun program h => ⟨fun statement => Program.mem_declared_iff, Program.increasing_declared h,
      Program.oneLine_lines h, Program.filter_lines h⟩⟩
  rw [parseThen_off, parseThen_eq_conclude, map_eq_pure_bind]
  rfl

set_option maxRecDepth 4000 in
/-- The trace of a program with a declaration in an initializer, and what is reported with it. -/
theorem Program.trace_eq_declarations_inner :
    ∃ program, Program.parse "let f = () => \x7b var x; \x7d;" = .ok program ∧
      Statement.Increasing program.declared ∧
      ((TraceSettings.lines ⟨true, true⟩ (Program.parseText
        "let f = () => \x7b var x; \x7d;".toList).2).filter isDeclarationLine).map some =
          [some "[MINIJS_TRACE_PARSE] var x (initialized: false)",
            some "[MINIJS_TRACE_PARSE] let f (initialized: true)"] ∧
      (parseThen .forDeclarations "f" "let f = () => \x7b var x; \x7d;"
        (fun _ => .printed "done") : Id Report) = ⟨true, "done",
          "[MINIJS_TRACE_PARSE] var x (initialized: false)\n" ++
            "[MINIJS_TRACE_PARSE] let f (initialized: true)\n"⟩ := by
  have hprogram : Program.parse "let f = () => \x7b var x; \x7d;" =
      .ok ⟨[.variableDeclaration .asLet ⟨"f", ⟨4, 1⟩⟩ (some ⟨.arrow ⟨[], ⟨8, 2⟩⟩
        (.block [.variableDeclaration .asVar ⟨"x", ⟨20, 1⟩⟩ none ⟨16, 6⟩] ⟨14, 10⟩) ⟨8, 16⟩,
        ⟨8, 16⟩⟩) ⟨0, 25⟩], ⟨0, 25⟩⟩ := by cbv
  obtain ⟨htraced, htext, hplain, htrace⟩ :=
    Program.trace_eq_declarations (m := Id) "let f = () => \x7b var x; \x7d;"
  obtain ⟨-, hincreasing, -, hlines⟩ := htrace _ hprogram
  refine ⟨_, hprogram, hincreasing, (hlines ⟨true, true⟩).trans ?_, ?_⟩
  · simp [Program.declared, Node.declared_eq, Node.children, Node.declaration?,
      Statement.traceLine?, Statement.isDeclaration, ArrowBody.node, Modifier.word]
    decide
  · have hshown : TraceSettings.forDeclarations.lines (Program.parseText
        "let f = () => \x7b var x; \x7d;".toList).2 =
          ["[MINIJS_TRACE_PARSE] var x (initialized: false)",
            "[MINIJS_TRACE_PARSE] let f (initialized: true)"] := by cbv
    rw [htraced, hplain, hprogram, htext, hshown]
    rfl

end Scriptlet
