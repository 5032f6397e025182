import Mathlib
import Scriptlet.Error.Diagnostic
import Scriptlet.Proofs.Reports
import Scriptlet.Proofs.Splitting

/-!
# The lines of a rendered error

The error of a text that is refused is laid out on two lines, or on three if it names a statement
that starts elsewhere. Nothing that is quoted from the text ends a line: the texts of tokens hold no
line feed, the scanner never stops at one, and excerpts are on one line. The last line ends with a
quote or a digit, so trimming takes no more than its line feed.
-/

namespace Scriptlet

open Spelling Text

variable {here there : Place} {token : Token} {cause : Cause} {error : SyntaxError}
  {path : String} {text chars : List Char} {c : Char}

/-! ## Texts on one line -/

/-- A text holds no line feed. -/
def OneLine (string : String) : Prop :=
  '\n' ∉ string.toList

instance (string : String) : Decidable (OneLine string) :=
  inferInstanceAs (Decidable (¬ _))

namespace OneLine

variable {first second : String}

theorem append_iff : OneLine (first ++ second) ↔ OneLine first ∧ OneLine second := by
  unfold OneLine
  rw [String.toList_append, List.mem_append, not_or]

theorem append (h : OneLine first) (hsecond : OneLine second) : OneLine (first ++ second) :=
  append_iff.2 ⟨h, hsecond⟩

theorem ofList (h : '\n' ∉ chars) : OneLine (String.ofList chars) := by
  unfold OneLine
  rwa [String.toList_ofList]

/-- Characters of a class without the line feed are on one line. -/
theorem not_mem_of_all (p : Char → Bool) (h : ∀ c ∈ chars, p c = true) (hp : p '\n' = false) :
    '\n' ∉ chars := fun hmem => by
  have hline := h '\n' hmem
  rw [hp] at hline
  cases hline

theorem toString (value : Nat) : OneLine (ToString.toString value) := by
  unfold OneLine
  rw [Nat.toString_eq_repr, Nat.toList_repr]
  exact not_mem_of_all Char.isDigit
    (fun _ hc => Nat.isDigit_of_mem_toDigits (by decide) (by decide) hc) (by decide)

end OneLine

/-! ## Messages -/

/-- No token holds a line feed. -/
theorem Form.WellFormed.line_not_mem {form : Form} (h : form.WellFormed) : '\n' ∉ form.text := by
  have hword {first : Char} {more : List Char} (hfirst : isWordStart first = true)
      (hmore : ∀ c ∈ more, isWordChar c = true) : '\n' ∉ first :: more := by
    refine OneLine.not_mem_of_all isWordChar (List.forall_mem_cons.2 ⟨?_, hmore⟩) (by decide)
    simp [isWordChar, hfirst]
  have hdigits {digits : List Char} (h : ∀ d ∈ digits, d.isDigit = true) : '\n' ∉ digits :=
    OneLine.not_mem_of_all Char.isDigit h (by decide)
  cases form with
  | punctuation c kind =>
      have htable : ∀ entry ∈ Spelling.punctuation, '\n' ∉ [entry.1] := by decide
      exact htable _ h
  | operator run kind =>
      have htable : '\n' ∉ operatorChars := by decide
      exact fun hmem => htable (h.2.1 _ hmem)
  | word first more => exact hword h.1 h.2
  | string quote inner => exact h.2.line
  | whole digits => exact hdigits h.2
  | fraction digits => simpa [text] using hdigits h.2
  | decimal digits places => simpa [text, Form.chars] using ⟨hdigits h.1.2, hdigits h.2.2⟩
  | field blanks first more => exact hword h.2.1 h.2.2

theorem Place.Next.oneLine (h : here.Next token) : OneLine token.text := by
  obtain ⟨lexeme, body, rest, -, hstands, rfl, -⟩ := h.stands
  obtain ⟨form, hform, -, -, rfl⟩ := Form.exists_of_stands hstands
  exact .ofList hform.line_not_mem

theorem Reads.oneLine {tokens : List Token} (h : Reads here tokens there) :
    ∀ token ∈ tokens, OneLine token.text := by
  induction h with
  | nil => exact List.forall_mem_nil _
  | cons hnext _ ih => exact List.forall_mem_cons.2 ⟨hnext.oneLine, ih⟩

theorem Token.oneLine_quoted (h : OneLine token.text) : OneLine token.quoted := by
  unfold Token.quoted
  split
  · exact .append (.append (by decide) h) (by decide)
  · exact .append (by decide) h
  · exact h

theorem Expectation.oneLine_message (expectation : Expectation) : OneLine expectation.message := by
  cases expectation <;> decide +kernel

namespace Lexeme

variable {rest : List Char} {fault : Fault}

/-- A run that is no operator is quoted, and holds operator characters alone. -/
theorem oneLine_of_scanOperator (h : scanOperator text = .error fault) :
    OneLine fault.message := by
  unfold scanOperator at h
  dsimp only at h
  split at h
  · cases h
  · cases h
    have hrun : '\n' ∉ text.takeWhile isOperatorChar :=
      OneLine.not_mem_of_all isOperatorChar (fun _ hmem => List.mem_takeWhile_imp hmem) (by decide)
    exact .append (.append (by decide) (.ofList hrun)) (by decide)

theorem oneLine_of_scanString {quote : Char} (h : scanString quote text = .error fault) :
    OneLine fault.message := by
  unfold scanString at h
  split at h <;> cases h
  decide

theorem oneLine_of_scanPoint (h : scanPoint text = .error fault) : OneLine fault.message := by
  unfold scanPoint at h
  dsimp only at h
  split at h
  · split at h
    · split at h <;> cases h
      decide
    · cases h
      decide
  · cases h

/-- What stands at no line feed and is no lexeme is refused on one line. -/
theorem oneLine_of_scan (h : scan (c :: rest) = .error fault) (hc : c ≠ '\n') :
    OneLine fault.message := by
  have hmapped {result : Except Fault Lexeme} (h : some <$> result = .error fault) :
      result = .error fault := by
    cases result <;> cases h
    rfl
  -- The first character decides, in the order that the scanner asks about it.
  simp only [scan] at h
  split at h
  · cases h
  split at h
  · exact oneLine_of_scanOperator (hmapped h)
  split at h
  · cases h
  split at h
  · exact oneLine_of_scanString (hmapped h)
  split at h
  · cases h
  split at h
  · exact oneLine_of_scanPoint (hmapped h)
  · cases h
    have hquoted : OneLine (String.singleton c) := fun hmem =>
      hc (by simpa using hmem : '\n' = c).symm
    exact .append (.append (by decide) hquoted) (by decide)

end Lexeme

/-- The fault at a place that holds no blank is told on one line. -/
theorem Place.Unblank.oneLine_fault {fault : Fault} (h : here.Unblank)
    (hpeek : here.cursor.peek = .error ⟨.fault fault, here.cursor.offset, none⟩) :
    OneLine fault.message := by
  obtain ⟨c, rest, hrest, hblank⟩ := h.exists_of_fault hpeek
  have hscan : Lexeme.scan (c :: rest) = .error fault := by
    unfold Cursor.peek at hpeek
    rw [hrest] at hpeek
    split at hpeek
    · cases hpeek
    · cases hpeek
    · next hscan =>
      cases hpeek
      exact hscan
  refine Lexeme.oneLine_of_scan hscan ?_
  rintro rfl
  cases hblank

/-- What is so at a place where reading looks for a token is told on one line. -/
theorem Cause.At.oneLine (h : cause.At there) (hplace : there.Unblank) : OneLine cause.message := by
  cases h with
  | fault hpeek => exact hplace.oneLine_fault hpeek
  | endOfInput => exact (by decide : OneLine "unexpected end of code")
  | unexpected expectation hnext =>
      exact .append (.append (.append expectation.oneLine_message (by decide))
        (Token.oneLine_quoted hnext.oneLine)) (by decide)
  | unsupportedStatement hnext => exact .append (.append (by decide) hnext.oneLine) (by decide)
  | tooDeep levels => exact .append (.append (by decide) (.toString levels)) (by decide)
  | notRebindable cause => cases cause <;> decide
  | reservedName hnext => exact .append (.append (by decide) hnext.oneLine) (by decide)

/-! ## Locations -/

namespace Location

variable {place other third : Location}

/-- A place is not after another one, by line and then by column. -/
def NotAfter (place other : Location) : Prop :=
  place.line < other.line ∨ place.line = other.line ∧ place.column ≤ other.column

theorem NotAfter.refl (place : Location) : place.NotAfter place :=
  .inr ⟨rfl, Nat.le_refl _⟩

theorem NotAfter.trans (h : place.NotAfter other) (hother : other.NotAfter third) :
    place.NotAfter third := by
  unfold NotAfter at *
  omega

theorem notAfter_after (place : Location) (c : Char) : place.NotAfter (place.after c) := by
  unfold after
  split
  · exact .inl (Nat.lt_succ_self _)
  · exact .inr ⟨rfl, Nat.le_succ _⟩

theorem notAfter_foldl (place : Location) (text : List Char) :
    place.NotAfter (text.foldl after place) := by
  induction text generalizing place with
  | nil => exact .refl place
  | cons c text ih => exact (place.notAfter_after c).trans (ih _)

/-- Locations go on with the offsets. -/
theorem notAfter_ofOffset (text : List Char) {offset stop : Nat} (h : offset ≤ stop) :
    (ofOffset text offset).NotAfter (ofOffset text stop) := by
  obtain ⟨count, rfl⟩ := Nat.exists_eq_add_of_le h
  unfold ofOffset
  rw [List.take_add, List.foldl_append]
  exact notAfter_foldl _ _

end Location

/-! ## Lines -/

namespace SyntaxError

/-- The first line of an error: its code, its place, its class and what it says. -/
def header (error : SyntaxError) (path : String) (text : List Char) : String :=
  "error[" ++ error.kind.code ++ "] " ++
    Diagnostic.placeIn path (Location.ofOffset text error.offset) ++ " " ++
    (error.kind.label ++ ": " ++ error.message)

/-- The second line of an error: what it quotes. -/
def near (error : SyntaxError) : String :=
  "  near: `" ++ error.excerpt ++ "`"

/-- The line about the statement that an error lies in. -/
def noteLine (path : String) (text : List Char) (start : Nat) : String :=
  "  note: in the statement starting here at " ++
    Diagnostic.placeIn path (Location.ofOffset text start)

/-- The start of the statement that an error names, if it is another place than that of the
error. -/
def noted? (error : SyntaxError) : Option Nat :=
  error.statement.filter (· ≠ error.offset)

/-- The lines that an error is laid out on. -/
def reportLines (error : SyntaxError) (path : String) (text : List Char) : List String :=
  error.header path text :: error.near :: (error.noted?.map (noteLine path text)).toList

/-- The diagnostic of an error has these lines, if something is quoted. -/
theorem lines_toDiagnostic (h : error.excerpt ≠ "") :
    (error.toDiagnostic text).lines path = (error.reportLines path text).map (· ++ "\n") := by
  have hexcerpt : ¬ error.excerpt.isEmpty := by simpa using h
  have hnear : "  near: `" ++ error.excerpt ++ ("`" ++ "\n") = error.near ++ "\n" :=
    String.append_assoc.symm
  have hnotes : (error.notes text).map (fun note =>
      "  note: " ++ note.message ++ " at " ++ Diagnostic.placeIn path note.place ++ "\n") =
        (error.noted?.map (noteLine path text)).toList.map (· ++ "\n") := by
    unfold notes noted?
    cases error.statement with
    | none => rfl
    | some start =>
        by_cases hstart : start = error.offset
        · simp [hstart]
        · simp only [hstart, if_false, Option.filter_some, ne_eq, not_false_eq_true, decide_true,
            if_true]
          rfl
  show _ ++ (if error.excerpt.isEmpty then [] else
    ["  near: `" ++ error.excerpt ++ ("`" ++ "\n")]) ++ (error.notes text).map _ = _
  rw [if_neg hexcerpt, hnear, hnotes]
  rfl

end SyntaxError

/-- Lines that end with line feeds are lines between line feeds, and a last line feed. -/
theorem join_map_line (line : String) (lines : List String) :
    String.join ((line :: lines).map (· ++ "\n")) = "\n".intercalate (line :: lines) ++ "\n" := by
  induction lines generalizing line with
  | nil => simp [String.intercalate_singleton]
  | cons second lines ih =>
      rw [List.map_cons, String.join_cons, ih, String.intercalate_cons_cons]
      simp only [String.append_assoc]

/-- Trimming takes the line feed behind a character that is no blank. -/
theorem trimEnd_line {string : String} (h : string.toList.getLast? = some c)
    (hc : isBlank c = false) : trimEnd (string ++ "\n") = string := by
  obtain ⟨before, hbefore⟩ := List.getLast?_eq_some_iff.1 h
  have hline : ("\n" : String).toList = ['\n'] := rfl
  have hblank : isBlank '\n' = true := rfl
  unfold trimEnd dropBlanks
  rw [String.toList_append, hbefore, hline]
  simp only [List.reverse_append, List.reverse_cons, List.reverse_nil, List.nil_append,
    List.cons_append, List.dropWhile_cons, hblank, hc, if_true, Bool.false_eq_true, if_false,
    List.reverse_reverse]
  rw [← hbefore, String.ofList_toList]

/-- A text ends as its last part does. -/
theorem getLast?_append_of {first second : String} (h : second.toList.getLast? = some c) :
    (first ++ second).toList.getLast? = some c := by
  rw [String.toList_append, List.getLast?_append, h]
  rfl

/-- A number ends with a digit. -/
theorem exists_getLast?_toString (value : Nat) :
    ∃ d, (toString value).toList.getLast? = some d ∧ d.isDigit = true := by
  rw [Nat.toString_eq_repr, Nat.toList_repr]
  have hne : Nat.toDigits 10 value ≠ [] := Nat.toDigits_ne_nil
  exact ⟨_, List.getLast?_eq_some_getLast hne,
    Nat.isDigit_of_mem_toDigits (by decide) (by decide) (List.getLast_mem hne)⟩

namespace SyntaxError

/-- The lines of an error end with a character that is no blank. -/
theorem exists_getLast?_reportLines (error : SyntaxError) (path : String) (text : List Char) :
    ∃ c, ("\n".intercalate (error.reportLines path text)).toList.getLast? = some c ∧
      isBlank c = false := by
  unfold reportLines
  cases error.noted? with
  | none =>
      refine ⟨'`', ?_, by decide⟩
      rw [Option.map_none, Option.toList_none, String.intercalate_cons_cons,
        String.intercalate_singleton]
      exact getLast?_append_of (getLast?_append_of rfl)
  | some start =>
      obtain ⟨d, hd, hdigit⟩ := exists_getLast?_toString (Location.ofOffset text start).column
      refine ⟨d, ?_, ?_⟩
      · rw [Option.map_some, Option.toList_some, String.intercalate_cons_cons,
          String.intercalate_cons_cons, String.intercalate_singleton]
        exact getLast?_append_of (getLast?_append_of (getLast?_append_of (getLast?_append_of hd)))
      · refine Bool.eq_false_iff.2 fun hblank => ?_
        rw [isDigit_of_isBlank hblank] at hdigit
        cases hdigit

theorem oneLine_placeIn (hpath : OneLine path) (place : Location) :
    OneLine (Diagnostic.placeIn path place) :=
  .append (.append (.append (.append hpath (by decide)) (.toString _)) (by decide)) (.toString _)

theorem oneLine_header (hpath : OneLine path) (hmessage : OneLine error.message) :
    OneLine (error.header path text) := by
  have hcode : OneLine error.kind.code := by cases error.kind <;> decide
  have hlabel : OneLine error.kind.label := by cases error.kind <;> decide
  exact .append (.append (.append (.append (.append (by decide) hcode) (by decide))
    (oneLine_placeIn hpath _)) (by decide)) (.append (.append hlabel (by decide)) hmessage)

/-- How an error of a text is laid out under a path. -/
structure LaidOut (error : SyntaxError) (path : String) (text : List Char) : Prop where
  render_eq : error.render path text = "\n".intercalate (error.reportLines path text)
  untrimmed : String.join ((error.toDiagnostic text).lines path) = error.render path text ++ "\n"
  oneLine : ∀ line ∈ error.reportLines path text, OneLine line
  noted : ∀ start, error.noted? = some start →
    (Location.ofOffset text start).NotAfter (Location.ofOffset text error.offset)

/-- An error with a message on one line and an excerpt, and with a statement that starts no later,
is laid out on its lines. -/
theorem laidOut (hpath : OneLine path) (hmessage : OneLine error.message)
    (hexcerpt : OneLine error.excerpt) (hne : error.excerpt ≠ "")
    (hstatement : ∀ start, error.statement = some start → start ≤ error.offset) :
    error.LaidOut path text := by
  have hjoin : String.join ((error.toDiagnostic text).lines path) =
      "\n".intercalate (error.reportLines path text) ++ "\n" := by
    rw [lines_toDiagnostic hne]
    exact join_map_line _ _
  have hrender : error.render path text = "\n".intercalate (error.reportLines path text) := by
    obtain ⟨c, hlast, hc⟩ := error.exists_getLast?_reportLines path text
    unfold render Diagnostic.render
    rw [hjoin, trimEnd_line hlast hc]
  refine ⟨hrender, hrender ▸ hjoin, ?_, fun start hnoted => ?_⟩
  · refine List.forall_mem_cons.2 ⟨oneLine_header hpath hmessage, List.forall_mem_cons.2
      ⟨.append (.append (by decide) hexcerpt) (by decide), ?_⟩⟩
    cases error.noted? with
    | none => exact List.forall_mem_nil _
    | some start =>
        exact List.forall_mem_singleton.2 (.append (by decide) (oneLine_placeIn hpath _))
  · exact Location.notAfter_ofOffset text (hstatement start (Option.filter_eq_some_iff.1 hnoted).1)

end SyntaxError

/-- The error of a text that is refused is laid out on a header, a line with what it quotes, and a
line about its statement if that starts elsewhere. None of these holds a line feed, trimming takes
only the last one, and the statement is located no later than the error. -/
theorem Program.render_parse_error {source : String} (hpath : OneLine path)
    (h : Program.parse source = .error error) : error.LaidOut path source.toList := by
  obtain ⟨failure, stop, hrun, rfl⟩ := Program.parse_eq_error_iff.1 h
  have hanchored := anchored_of_parseWithin hrun
  have ⟨⟨there, hreach, _, hcause⟩, hstatement⟩ := hanchored
  exact SyntaxError.laidOut hpath (hcause.oneLine hreach.unblank)
    (failure.cause.kind.line_not_mem_excerpt _ _)
    (hanchored.excerpt_ne (ne_nil_of_parseWithin hrun)) hstatement

/-- The error at a second argument without a comma before it, with the note on its statement. -/
theorem Program.render_parse_error_argument :
    OneLine "main.js" ∧ ∃ error, Program.parse "f(\n1 2);" = .error error ∧
      error.LaidOut "main.js" "f(\n1 2);".toList ∧
      error.reportLines "main.js" "f(\n1 2);".toList =
        ["error[E1500] main.js:2:3 unexpected token: " ++
            "expected `;`, `,` or a closing bracket, found `2`",
          "  near: `f( 1 2);`", "  note: in the statement starting here at main.js:1:1"] := by
  have hpath : OneLine "main.js" := by decide
  have h : Program.parse "f(\n1 2);" = .error ⟨.unexpectedToken,
      "expected `;`, `,` or a closing bracket, found `2`", 5, "f( 1 2);", some 0⟩ :=
    Program.parse_eq_error_of_map (by decide +kernel)
  exact ⟨hpath, _, h, Program.render_parse_error hpath h, by decide +kernel⟩

end Scriptlet
