import Mathlib
import Scriptlet.Proofs.Anchors

/-!
# What a syntax error tells of a text

A syntax error is anchored in its text: the scanner stops where a lexical error is, the text ends
where the end of input is reported, every other error is at a token or, for want of levels, at the
cursor. What it quotes of the text is on one line and is never empty, because the scanner looks for
a token only where no blank is.
-/

namespace Scriptlet

open Text

variable {text : List Char} {here there : Place} {token : Token} {found : List Token}
  {failure : Failure}

/-! ## Where tokens are looked for -/

/-- No blank is at a place. -/
def Place.Unblank (here : Place) : Prop :=
  ∀ c ∈ here.cursor.rest.head?, isBlank c = false

theorem Cursor.unblank_skipBlanks (cursor : Cursor) (lastStop : Nat) :
    Place.Unblank ⟨cursor.skipBlanks, lastStop⟩ :=
  (IsRun.of_text cursor.rest).stops

/-- Reading goes from token to token. -/
theorem Reads.unblank (h : Reads here found there) (hhere : here.Unblank) : there.Unblank := by
  induction h with
  | nil => exact hhere
  | cons _ _ ih => exact ih (Cursor.unblank_skipBlanks _ _)

/-- No blank is where reading a text comes to. -/
theorem Place.Reaches.unblank (h : (Place.start text).Reaches there) : there.Unblank := by
  obtain ⟨tokens, hreads⟩ := h
  exact hreads.unblank (Cursor.unblank_skipBlanks _ _)

/-- Reading a text stays in it. -/
theorem Place.Reaches.in (h : (Place.start text).Reaches there) : there.cursor.In text := by
  obtain ⟨tokens, hreads⟩ := h
  exact hreads.in (Cursor.start_in text)

theorem Cursor.In.offset_le {cursor : Cursor} (h : cursor.In text) :
    cursor.offset ≤ text.length := by
  obtain ⟨before, rfl, hoffset⟩ := h
  rw [hoffset, List.length_append]
  exact Nat.le_add_right _ _

/-- At a fault stands a character that is no blank. -/
theorem Place.Unblank.exists_of_fault (h : here.Unblank) {fault : Failure}
    (hfault : here.cursor.peek = .error fault) :
    ∃ c rest, here.cursor.rest = c :: rest ∧ isBlank c = false := by
  cases hrest : here.cursor.rest with
  | nil => simp [Cursor.peek, hrest, Lexeme.scan] at hfault
  | cons c rest => exact ⟨c, rest, rfl, h c (by simp [hrest])⟩

/-! ## Excerpts -/

theorem line_not_mem_lineExcerpt (text : List Char) (offset : Nat) :
    '\n' ∉ (lineExcerpt text offset).toList := by
  intro hmem
  rw [lineExcerpt, String.toList_ofList] at hmem
  simpa using List.mem_takeWhile_imp (List.mem_of_mem_take hmem)

theorem line_not_mem_surroundingExcerpt (text : List Char) (offset : Nat) :
    '\n' ∉ (surroundingExcerpt text offset).toList := by
  intro hmem
  rw [surroundingExcerpt, String.toList_ofList] at hmem
  obtain ⟨c, -, hc⟩ := List.mem_map.1 hmem
  split at hc
  · exact absurd hc (by decide)
  · exact absurd hc ‹_›

/-- The rest of a line is not empty where a character other than a line feed stands. -/
theorem lineExcerpt_ne_empty {offset : Nat} {c : Char} {rest : List Char}
    (h : text.drop offset = c :: rest) (hc : c ≠ '\n') : lineExcerpt text offset ≠ "" := by
  intro hempty
  have hnil : (lineExcerpt text offset).toList = [] := by rw [hempty]; rfl
  rw [lineExcerpt, String.toList_ofList, h, List.takeWhile_cons, if_pos (by simpa using hc)] at hnil
  cases hnil

/-- What surrounds an offset of a text is empty only if the text is. -/
theorem surroundingExcerpt_ne_empty {offset : Nat} (hne : text ≠ []) (hle : offset ≤ text.length) :
    surroundingExcerpt text offset ≠ "" := by
  intro hempty
  have hnil : (surroundingExcerpt text offset).toList = [] := by rw [hempty]; rfl
  have hlength := congrArg List.length hnil
  rw [surroundingExcerpt, String.toList_ofList, List.length_map, List.length_drop, List.length_take,
    List.length_nil] at hlength
  have hpos := List.length_pos_iff.2 hne
  omega

/-! ## Syntax errors -/

/-- A token that can be read from a text starts at an offset. -/
def StartsToken (source : String) (offset : Nat) : Prop :=
  ∃ token ∈ (Cursor.start source.toList).listed, token.span.offset = offset

theorem Place.Reaches.startsToken {source : String}
    (h : (Place.start source.toList).Reaches there) (hnext : there.Next token) :
    StartsToken source there.cursor.offset := by
  obtain ⟨tokens, hreads⟩ := h
  have hmore := hreads.append (.single hnext)
  exact ⟨token, hmore.listed_prefix.subset (by simp), hnext.offset_eq⟩

/-- What a syntax error tells of the text that it is for: where it is, by its class, and what it
quotes. -/
structure SyntaxError.AnchoredIn (error : SyntaxError) (source : String) : Prop where
  offset_le : error.offset ≤ source.toList.length
  lexical : error.kind = .lexical →
    ∃ fault, tokens source = .error fault ∧ fault.offset = error.offset
  endOfInput : error.kind = .endOfInput →
    error.offset = source.toList.length ∧ ∃ found, tokens source = .ok found
  refused : error.kind = .unexpectedToken ∨ error.kind = .reservedName ∨
    error.kind = .notRebindable → StartsToken source error.offset
  unsupported : error.kind = .unsupported → StartsToken source error.offset ∨
    (∃ fault, (Cursor.ofOffset source.toList error.offset).peek = .error fault) ∨
      error.offset = source.toList.length
  excerpt_ne : error.excerpt ≠ ""
  excerpt_line : '\n' ∉ error.excerpt.toList
  lineExcerpt : error.kind = .lexical →
    error.excerpt = Text.lineExcerpt source.toList error.offset ∧ error.excerpt.length ≤ 20
  surroundingExcerpt : error.kind ≠ .lexical →
    error.excerpt = Text.surroundingExcerpt source.toList error.offset ∧
      error.excerpt.length ≤ 24

/-- The empty text is a program. -/
theorem parseWithin_nil (limit : Nat) : ∃ stop, parseWithin limit [] = .ok [] stop :=
  parseWithin_eq_ok_iff.2 ⟨[], Reads.start_tokens_eq_ok_iff.2 ⟨_, .nil _, rfl⟩, .nil⟩

/-- A text that is refused is not empty. -/
theorem ne_nil_of_parseWithin {limit : Nat} {stop : ParseState}
    (h : parseWithin limit text = .error failure stop) : text ≠ [] := by
  rintro rfl
  obtain ⟨_, hok⟩ := parseWithin_nil limit
  rw [hok] at h
  cases h

/-- A failure that is anchored in a text is reported with a part of the text. -/
theorem Failure.Anchored.excerpt_ne (h : failure.Anchored (.start text)) (hne : text ≠ []) :
    (failure.report text).excerpt ≠ "" := by
  obtain ⟨cause, offset, statement⟩ := failure
  obtain ⟨⟨there, hreach, rfl, hcause⟩, -⟩ := h
  have hin := hreach.in
  cases hcause with
  | fault hfault =>
      obtain ⟨c, rest, hrest, hc⟩ := hreach.unblank.exists_of_fault hfault
      have hdrop : text.drop there.cursor.offset = c :: rest :=
        (congrArg Cursor.rest hin.eq_ofOffset).symm.trans hrest
      exact lineExcerpt_ne_empty hdrop fun hline => by rw [hline] at hc; cases hc
  | endOfInput | unexpected | unsupportedStatement | tooDeep | notRebindable | reservedName =>
      exact surroundingExcerpt_ne_empty hne hin.offset_le

/-- What an error quotes is on one line. -/
theorem ErrorKind.line_not_mem_excerpt (kind : ErrorKind) (text : List Char) (offset : Nat) :
    '\n' ∉ (kind.excerpt text offset).toList := by
  cases kind with
  | lexical => exact line_not_mem_lineExcerpt text offset
  | endOfInput | unexpectedToken | unsupported | notRebindable | reservedName =>
      exact line_not_mem_surroundingExcerpt text offset

/-- Only a lexical error quotes the line from its place on. -/
theorem ErrorKind.excerpt_eq_surrounding {kind : ErrorKind} (h : kind ≠ .lexical)
    (text : List Char) (offset : Nat) :
    kind.excerpt text offset = surroundingExcerpt text offset := by
  cases kind with
  | lexical => exact absurd rfl h
  | endOfInput | unexpectedToken | unsupported | notRebindable | reservedName => rfl

section

variable {source : String} {cause : Cause} (hreach : (Place.start source.toList).Reaches there)
  (hcause : cause.At there)

include hreach hcause

/-- A lexical error is where the scanner stops. -/
theorem Cause.At.exists_fault (hkind : cause.kind = .lexical) :
    ∃ fault, tokens source = .error fault ∧ fault.offset = there.cursor.offset := by
  cases hcause with
  | fault hfault =>
      obtain ⟨found, hreads⟩ := hreach
      have hstart := Reads.start_tokens_eq_error_iff.2 ⟨found, there, hreads, hfault⟩
      exact ⟨_, tokens_eq_error_iff.2 ⟨_, hstart, rfl⟩, rfl⟩
  | _ => cases hkind

/-- Where the end of the text is reported, the scanner has come to it. -/
theorem Cause.At.offset_eq_length (hkind : cause.kind = .endOfInput) :
    there.cursor.offset = source.toList.length ∧ ∃ found, tokens source = .ok found := by
  cases hcause with
  | endOfInput hended =>
      have hin := hreach.in
      obtain ⟨found, hreads⟩ := hreach
      have hstart := Reads.start_tokens_eq_ok_iff.2 ⟨there, hreads, hended⟩
      exact ⟨hended.offset_eq hin, found, tokens_eq_ok_iff.2 hstart⟩
  | _ => cases hkind

/-- A token that is refused starts where that is reported. -/
theorem Cause.At.startsToken (hkind : cause.kind = .unexpectedToken ∨
    cause.kind = .reservedName ∨ cause.kind = .notRebindable) :
    StartsToken source there.cursor.offset := by
  cases hcause with
  | unexpected _ hnext | reservedName hnext | notRebindable _ hnext =>
      exact hreach.startsToken hnext
  | _ => rcases hkind with hkind | hkind | hkind <;> cases hkind

/-- A statement that the language leaves out starts with a token; a construct that has no level left
starts at a token, at a fault or at the end of the text. -/
theorem Cause.At.unsupported_cases (hkind : cause.kind = .unsupported) :
    StartsToken source there.cursor.offset ∨
      (∃ fault, (Cursor.ofOffset source.toList there.cursor.offset).peek = .error fault) ∨
        there.cursor.offset = source.toList.length := by
  cases hcause with
  | unsupportedStatement hnext => exact .inl (hreach.startsToken hnext)
  | tooDeep =>
      have hin := hreach.in
      cases hpeek : there.cursor.peek with
      | error fault => exact .inr (.inl ⟨fault, hin.eq_ofOffset ▸ hpeek⟩)
      | ok next? =>
          cases next? with
          | none => exact .inr (.inr (Place.Ended.offset_eq hpeek hin))
          | some token => exact .inl (hreach.startsToken hpeek)
  | _ => cases hkind

end

/-- The error of a text that is refused is anchored in the text. -/
theorem Program.parse_error_anchored {source : String} {error : SyntaxError}
    (h : Program.parse source = .error error) : error.AnchoredIn source := by
  obtain ⟨failure, stop, hrun, rfl⟩ := Program.parse_eq_error_iff.1 h
  have hanchored := anchored_of_parseWithin hrun
  have hexcerpt := hanchored.excerpt_ne (ne_nil_of_parseWithin hrun)
  obtain ⟨cause, offset, statement⟩ := failure
  obtain ⟨⟨there, hreach, rfl, hcause⟩, -⟩ := hanchored
  refine ⟨hreach.in.offset_le, hcause.exists_fault hreach, hcause.offset_eq_length hreach,
    hcause.startsToken hreach, hcause.unsupported_cases hreach, hexcerpt,
    cause.kind.line_not_mem_excerpt _ _, fun hkind => ?_, fun hkind => ?_⟩
  · have hline : cause.kind.excerpt source.toList there.cursor.offset = lineExcerpt _ _ :=
      congrArg (fun kind : ErrorKind => kind.excerpt source.toList there.cursor.offset) hkind
    exact ⟨hline, (congrArg String.length hline).trans_le (length_lineExcerpt_le _ _)⟩
  · have hsurrounding := ErrorKind.excerpt_eq_surrounding hkind source.toList there.cursor.offset
    exact ⟨hsurrounding,
      (congrArg String.length hsurrounding).trans_le (length_surroundingExcerpt_le _ _)⟩

/-- A text is refused with an error if it is when the tree is left out, which can be decided. -/
theorem Program.parse_eq_error_of_map {source : String} {error : SyntaxError}
    (h : ((Program.parse source).map fun _ => ()) = .error error) :
    Program.parse source = .error error := by
  cases hparse : Program.parse source with
  | ok program => rw [hparse] at h; cases h
  | error other => rw [hparse] at h; cases h; rfl

/-- The error at a second argument without a comma before it, on the second line of its text. -/
theorem Program.parse_error_anchored_argument :
    ∃ error, Program.parse "f(\n1 2);" = .error error ∧ error.kind = .unexpectedToken ∧
      error.offset = 5 ∧ error.excerpt = "f( 1 2);" ∧ error.AnchoredIn "f(\n1 2);" := by
  have h : Program.parse "f(\n1 2);" = .error ⟨.unexpectedToken,
      "expected `;`, `,` or a closing bracket, found `2`", 5, "f( 1 2);", some 0⟩ :=
    Program.parse_eq_error_of_map (by decide +kernel)
  exact ⟨_, h, rfl, rfl, rfl, Program.parse_error_anchored h⟩

end Scriptlet
