import Scriptlet.Proofs.Exactness
import Scriptlet.Proofs.Appending

/-!
# The only split of a text into lexemes

A form is a lexeme taken apart: the characters that it is made of, class by class, with no word on
how a text is scanned. A split takes a whole text apart into blanks and forms, such that each form
ends where the text could not make it longer. `tokens_exact` says that a text has tokens exactly
when it has a split, that it has one split at most, and that the tokens are those of the split.
-/

namespace Scriptlet

open Spelling Text

/-- The lexemes of the language, taken apart. -/
inductive Form where
  | punctuation (c : Char) (kind : Kind)
  | operator (run : List Char) (kind : Kind)
  | word (first : Char) (more : List Char)
  | string (quote : Char) (inner : List Char)
  | whole (digits : List Char)
  | decimal (digits places : List Char)
  | fraction (digits : List Char)
  | field (blanks : List Char) (first : Char) (more : List Char)

namespace Form

/-- The characters that a form stands for in a text. -/
def chars : Form → List Char
  | punctuation c _ => [c]
  | operator run _ => run
  | word first more => first :: more
  | string quote inner => quote :: (inner ++ [quote])
  | whole digits => digits
  | decimal digits places => digits ++ '.' :: places
  | fraction digits => '.' :: digits
  | field blanks first more => '.' :: (blanks ++ first :: more)

/-- The kind of the token. -/
def kind : Form → Kind
  | punctuation _ kind | operator _ kind => kind
  | word .. => .word
  | string .. => .string
  | whole .. | decimal .. | fraction .. => .number
  | field .. => .field

/-- The text of the token: what stands between the quotes of a string, a fraction with a zero before
its point, the name of a field; of any other lexeme all its characters. -/
def text : Form → List Char
  | string _ inner => inner
  | fraction digits => '0' :: '.' :: digits
  | field _ first more => first :: more
  | form => form.chars

/-- What may stand between the quotes of a string: no line feed, quotes only right behind a
backslash of the string, and no backslash at the end. -/
structure IsInner (quote : Char) (inner : List Char) : Prop where
  line : '\n' ∉ inner
  quotes : ∀ before after, inner = before ++ quote :: after → before.getLast? = some '\\'
  last : inner.getLast? ≠ some '\\'

/-- The parts of a form are those that its class of lexemes has. -/
def WellFormed : Form → Prop
  | punctuation c kind => (c, kind) ∈ Spelling.punctuation
  | operator run kind =>
      run ≠ [] ∧ (∀ c ∈ run, c ∈ operatorChars) ∧ (String.ofList run, kind) ∈ operators
  | word first more => isWordStart first = true ∧ ∀ c ∈ more, isWordChar c = true
  | string quote inner => (quote = '\'' ∨ quote = '"') ∧ IsInner quote inner
  | whole digits | fraction digits => digits ≠ [] ∧ ∀ d ∈ digits, d.isDigit = true
  | decimal digits places =>
      (digits ≠ [] ∧ ∀ d ∈ digits, d.isDigit = true) ∧
        places ≠ [] ∧ ∀ d ∈ places, d.isDigit = true
  | field blanks first more =>
      (∀ b ∈ blanks, isBlank b = true) ∧ isWordStart first = true ∧
        ∀ c ∈ more, isWordChar c = true

/-- The text behind a form does not make it longer. Only a number without a fraction looks at two
characters: a point makes it longer if a digit follows. -/
def EndsBefore : Form → List Char → Prop
  | punctuation .., _ | string .., _ => True
  | operator .., rest => ∀ c ∈ rest.head?, c ∉ operatorChars
  | word .., rest | field .., rest => ∀ c ∈ rest.head?, isWordChar c = false
  | whole _, rest =>
      (∀ d ∈ rest.head?, d.isDigit = false) ∧
        ∀ d more, rest = '.' :: d :: more → d.isDigit = false
  | decimal .., rest | fraction _, rest => ∀ d ∈ rest.head?, d.isDigit = false

/-- The lexeme that a form is. -/
def lexeme (form : Form) : Lexeme :=
  ⟨form.kind, String.ofList form.text, form.chars.length⟩

/-- The token of a form that starts at an offset. -/
def token (form : Form) (offset : Nat) : Token :=
  ⟨form.kind, String.ofList form.text, ⟨offset, form.chars.length⟩⟩

end Form

/-- A text taken apart: blanks before each form, and blanks behind the last. -/
inductive Split where
  | done (blanks : List Char)
  | next (blanks : List Char) (form : Form) (rest : Split)

namespace Split

/-- The stretches of the text: blanks, the first form, blanks, and so on up to the last blanks. -/
def parts : Split → List (List Char)
  | done blanks => [blanks]
  | next blanks form rest => blanks :: form.chars :: rest.parts

/-- The text that is split. -/
def chars (split : Split) : List Char :=
  split.parts.flatten

@[simp] theorem chars_done (blanks : List Char) : (done blanks).chars = blanks :=
  List.append_nil blanks

@[simp] theorem chars_next (blanks : List Char) (form : Form) (rest : Split) :
    (next blanks form rest).chars = blanks ++ (form.chars ++ rest.chars) := rfl

/-- Only blanks stand between the forms, and each form is as long as the text lets it be. -/
def WellFormed : Split → Prop
  | done blanks => ∀ b ∈ blanks, isBlank b = true
  | next blanks form rest =>
      (∀ b ∈ blanks, isBlank b = true) ∧ form.WellFormed ∧ form.EndsBefore rest.chars ∧
        rest.WellFormed

/-- The split is one of the text. -/
def Of (split : Split) (text : List Char) : Prop :=
  split.WellFormed ∧ split.chars = text

/-- The tokens of a split whose text starts at an offset. -/
def tokens : Split → Nat → List Token
  | done _, _ => []
  | next blanks form rest, offset =>
      form.token (offset + blanks.length) ::
        rest.tokens (offset + blanks.length + form.chars.length)

end Split

/-! ## Tables -/

theorem punctuationKind?_eq_some_iff {c : Char} {kind : Kind} :
    punctuationKind? c = some kind ↔ (c, kind) ∈ punctuation := by
  constructor
  · exact mem_punctuation
  · intro h
    have htable : ∀ entry ∈ punctuation, punctuationKind? entry.1 = some entry.2 := by decide
    exact htable _ h

theorem operatorKind?_eq_some_iff {text : String} {kind : Kind} :
    operatorKind? text = some kind ↔ (text, kind) ∈ operators := by
  constructor
  · intro h
    obtain ⟨before, after, htable, -⟩ := List.lookup_eq_some_iff.1 h
    rw [htable]
    simp
  · intro h
    have htable : ∀ entry ∈ operators, operatorKind? entry.1 = some entry.2 := by decide
    exact htable _ h

theorem isOperatorChar_iff {c : Char} : isOperatorChar c = true ↔ c ∈ operatorChars := by
  simp [isOperatorChar]

theorem isOperatorChar_eq_false_iff {c : Char} : isOperatorChar c = false ↔ c ∉ operatorChars := by
  rw [← isOperatorChar_iff, Bool.not_eq_true]

/-! ## Strings -/

/-- Said of the whole body, with the character before it: what each character says of the one
before. -/
theorem isStringBody_iff {quote previous : Char} {body : List Char} :
    Lexeme.IsStringBody quote previous body ↔
      '\n' ∉ body ∧
        (∀ before after, body = before ++ quote :: after →
          (previous :: before).getLast? = some '\\') ∧
        (previous :: body).getLast? ≠ some '\\' := by
  induction body generalizing previous with
  | nil => simp [Lexeme.IsStringBody]
  | cons c body ih =>
      rw [Lexeme.IsStringBody, ih]
      constructor
      · rintro ⟨hline, hquote, hlines, hquotes, hlast⟩
        refine ⟨by simpa using ⟨Ne.symm hline, hlines⟩, ?_, by simpa using hlast⟩
        intro before after hbody
        cases before with
        | nil => simpa using hquote (List.cons.inj hbody).1
        | cons first before =>
            obtain ⟨rfl, rfl⟩ := List.cons.inj hbody
            simpa using hquotes before after rfl
      · rintro ⟨hline, hquotes, hlast⟩
        refine ⟨fun hc => hline (by simp [hc]), ?_, fun hmem => hline (by simp [hmem]), ?_,
          by simpa using hlast⟩
        · rintro rfl
          simpa using hquotes [] body rfl
        · intro before after hbody
          simpa using hquotes (c :: before) after (by rw [hbody]; rfl)

/-- A quote is no backslash, so what it has before it does not matter. -/
theorem isStringBody_quote_iff {quote : Char} {inner : List Char} (hquote : quote ≠ '\\') :
    Lexeme.IsStringBody quote quote inner ↔ Form.IsInner quote inner := by
  have hlast (body : List Char) :
      (quote :: body).getLast? = some '\\' ↔ body.getLast? = some '\\' := by
    cases body <;> simp [hquote]
  rw [isStringBody_iff]
  simp only [hlast, ne_eq]
  exact ⟨fun h => ⟨h.1, h.2.1, h.2.2⟩, fun h => ⟨h.line, h.quotes, h.last⟩⟩

/-! ## Forms -/

namespace Form

variable {form : Form} {rest : List Char}

theorem ne_backslash_of_quote {quote : Char} (h : quote = '\'' ∨ quote = '"') : quote ≠ '\\' := by
  rcases h with rfl | rfl <;> decide

/-- A form stands where it cannot be longer. -/
theorem stands (h : form.WellFormed) (hends : form.EndsBefore rest) :
    form.lexeme.Stands form.chars rest := by
  cases form with
  | punctuation c kind => exact .punctuation (punctuationKind?_eq_some_iff.2 h)
  | operator run kind =>
      obtain ⟨hne, hall, hkind⟩ := h
      exact .operator hne ⟨fun c hc => isOperatorChar_iff.2 (hall c hc),
        fun c hc => isOperatorChar_eq_false_iff.2 (hends c hc)⟩ (operatorKind?_eq_some_iff.2 hkind)
  | word first more => exact .word h.1 ⟨h.2, hends⟩
  | string quote inner =>
      have hbody := (isStringBody_quote_iff (ne_backslash_of_quote h.1)).2 h.2
      have hstands : Lexeme.Stands _ _ rest := .string h.1 hbody
      simpa [lexeme, kind, text, chars] using hstands
  | whole digits => exact .whole h.1 ⟨h.2, hends.1⟩ hends.2
  | decimal digits places => exact .decimal h.1.1 h.1.2 h.2.1 ⟨h.2.2, hends⟩
  | fraction digits =>
      have hstands := Lexeme.Stands.fraction h.1 ⟨h.2, hends⟩
      simpa [lexeme, kind, text, chars, Nat.add_comm] using hstands
  | field blanks first more =>
      have hstands := Lexeme.Stands.field h.1 h.2.1 ⟨h.2.2, hends⟩
      have hlength : 1 + blanks.length + (first :: more).length =
          (field blanks first more).chars.length := by
        simp only [chars, List.length_cons, List.length_append]
        omega
      rwa [hlength] at hstands

/-- Every lexeme that stands in a text is a form. -/
theorem exists_of_stands {lexeme : Lexeme} {body : List Char} (h : lexeme.Stands body rest) :
    ∃ form : Form, form.WellFormed ∧ form.EndsBefore rest ∧ form.chars = body ∧
      form.lexeme = lexeme := by
  have hlength := h.length_eq
  cases h with
  | @punctuation c kind _ hkind =>
      exact ⟨.punctuation c kind, punctuationKind?_eq_some_iff.1 hkind, trivial, rfl, rfl⟩
  | @operator run kind _ hne hrun hkind =>
      exact ⟨.operator body kind,
        ⟨hne, fun c hc => isOperatorChar_iff.1 (hrun.all c hc), operatorKind?_eq_some_iff.1 hkind⟩,
        fun c hc => isOperatorChar_eq_false_iff.1 (hrun.stops c hc), rfl, rfl⟩
  | @word first more _ hstart hrun =>
      exact ⟨.word first more, ⟨hstart, hrun.all⟩, hrun.stops, rfl, rfl⟩
  | @string quote inner _ hquote hbody =>
      refine ⟨.string quote inner,
        ⟨hquote, (isStringBody_quote_iff (ne_backslash_of_quote hquote)).1 hbody⟩, trivial, rfl, ?_⟩
      exact congrArg (Lexeme.mk _ _) hlength.symm
  | whole hne hrun hfraction =>
      exact ⟨.whole body, ⟨hne, hrun.all⟩, ⟨hrun.stops, hfraction⟩, rfl, rfl⟩
  | @decimal digits places _ hne hwhole hsome hrun =>
      exact ⟨.decimal digits places, ⟨⟨hne, hwhole⟩, hsome, hrun.all⟩, hrun.stops, rfl, rfl⟩
  | @fraction digits _ hne hrun =>
      exact ⟨.fraction digits, ⟨hne, hrun.all⟩, hrun.stops, rfl,
        congrArg (Lexeme.mk _ _) hlength.symm⟩
  | @field blanks first more _ hblanks hstart hrun =>
      exact ⟨.field blanks first more, ⟨hblanks, hstart, hrun.all⟩, hrun.stops, rfl,
        congrArg (Lexeme.mk _ _) hlength.symm⟩

/-- Blanks before a form end where it starts. -/
theorem isRun_blanks {blanks : List Char} (hblanks : ∀ b ∈ blanks, isBlank b = true)
    (h : form.WellFormed) (hends : form.EndsBefore rest) :
    IsRun isBlank blanks (form.chars ++ rest) := by
  have hstands := stands h hends
  obtain ⟨c, more, hchars⟩ := List.exists_cons_of_length_pos
    (Nat.lt_of_lt_of_eq (Lexeme.length_pos_of_scan hstands.scan_eq) hstands.length_eq)
  refine ⟨hblanks, ?_⟩
  rw [hchars]
  exact fun d hd => hstands.isBlank_head? d (hchars ▸ hd)

end Form

/-! ## Splits -/

namespace Split

variable {split other : Split} {text : List Char} {tokens : List Token}

/-- The tokens of a split are read from its text. -/
theorem reads (h : split.WellFormed) (offset stop : Nat) :
    ∃ there, Reads ⟨Cursor.skipBlanks ⟨offset, split.chars⟩, stop⟩ (split.tokens offset) there ∧
      there.Ended := by
  induction split generalizing offset stop with
  | done blanks =>
      have hrun : IsRun isBlank blanks [] := ⟨h, by simp⟩
      rw [Split.chars, parts, List.flatten_cons, List.flatten_nil, hrun.skipBlanks_eq]
      exact ⟨_, .nil _, Place.ended_iff.2 rfl⟩
  | next blanks form rest ih =>
      obtain ⟨hblanks, hform, hends, hrest⟩ := h
      rw [chars_next, (Form.isRun_blanks hblanks hform hends).skipBlanks_eq]
      let here : Place := ⟨⟨offset + blanks.length, form.chars ++ rest.chars⟩, stop⟩
      have hnext : here.Next (form.token (offset + blanks.length)) :=
        Place.next_of_stands rfl (Form.stands hform hends)
      have hpast : here.past (form.token (offset + blanks.length)) = _ :=
        Place.past_eq rfl form.kind (String.ofList form.text)
      obtain ⟨there, hreads, hended⟩ :=
        ih hrest (offset + blanks.length + form.chars.length)
          (offset + blanks.length + form.chars.length)
      exact ⟨there, .cons hnext (hpast ▸ hreads), hended⟩

/-- A text that is read to its end is split by what is read. -/
theorem exists_of_reads {offset stop : Nat} {there : Place}
    (h : Reads ⟨Cursor.skipBlanks ⟨offset, text⟩, stop⟩ tokens there) (hended : there.Ended) :
    ∃ split : Split, split.Of text ∧ split.tokens offset = tokens := by
  induction tokens generalizing offset stop text with
  | nil =>
      obtain rfl := Reads.nil_iff.1 h
      have hblank : dropBlanks text = [] := Place.ended_iff.1 hended
      have hall : ∀ b ∈ text, isBlank b = true := by
        simpa [dropBlanks, List.dropWhile_eq_nil_iff] using hblank
      exact ⟨.done text, ⟨hall, chars_done text⟩, rfl⟩
  | cons token tokens ih =>
      obtain ⟨hnext, hrest⟩ := Reads.cons_iff.1 h
      obtain ⟨lexeme, body, rest, hbody, hstands, htoken, hpast⟩ := hnext.stands
      obtain ⟨form, hform, hends, rfl, rfl⟩ := Form.exists_of_stands hstands
      rw [hpast] at hrest
      obtain ⟨split, ⟨hsplit, rfl⟩, htokens⟩ := ih hrest
      have hblanks : ∀ b ∈ text.takeWhile isBlank, isBlank b = true :=
        fun b hb => List.mem_takeWhile_imp hb
      refine ⟨.next (text.takeWhile isBlank) form split, ⟨⟨hblanks, hform, hends, hsplit⟩, ?_⟩, ?_⟩
      · show text.takeWhile isBlank ++ (form.chars ++ split.chars) = text
        rw [← hbody]
        exact List.takeWhile_append_dropWhile
      · rw [htoken, ← htokens]
        rfl

/-- The spans of its tokens say where a split takes its text apart. -/
theorem parts_eq_of_tokens {offset : Nat} (htext : split.chars = other.chars)
    (htokens : split.tokens offset = other.tokens offset) : split.parts = other.parts := by
  induction split generalizing other offset with
  | done blanks =>
      cases other with
      | done others =>
          rw [chars_done, chars_done] at htext
          rw [htext]
      | next => cases htokens
  | next blanks form rest ih =>
      cases other with
      | done => cases htokens
      | next others otherForm otherRest =>
          obtain ⟨htoken, hrest⟩ := List.cons.inj htokens
          have hoffset : offset + blanks.length = offset + others.length :=
            congrArg (·.span.offset) htoken
          have hlength : form.chars.length = otherForm.chars.length :=
            congrArg (·.span.length) htoken
          obtain ⟨hblanks, hbehind⟩ := List.append_inj htext (Nat.add_left_cancel hoffset)
          obtain ⟨hform, hbehind⟩ := List.append_inj hbehind hlength
          rw [← hblanks, ← hform] at hrest
          rw [parts, parts, hblanks, hform, ih hbehind hrest]

end Split

/-- A text has tokens exactly when it splits into blanks and forms, each as long as the text lets it
be, and then they are the tokens of the split. There is one such split at most. -/
theorem tokens_exact (source : String) :
    (∀ found, tokens source = .ok found ↔
      ∃ split : Split, split.Of source.toList ∧ split.tokens 0 = found) ∧
    ∀ split other : Split, split.Of source.toList → other.Of source.toList →
      split.parts = other.parts := by
  have htokens {split : Split} (h : split.Of source.toList) :
      tokens source = .ok (split.tokens 0) := by
    obtain ⟨there, hreads, hended⟩ := split.reads h.1 0 0
    rw [h.2] at hreads
    exact tokens_eq_ok_iff.2 (Reads.start_tokens_eq_ok_iff.2 ⟨there, hreads, hended⟩)
  refine ⟨fun found => ⟨fun h => ?_, ?_⟩, fun split other h hother => ?_⟩
  · obtain ⟨there, hreads, hended⟩ := Reads.start_tokens_eq_ok_iff.1 (tokens_eq_ok_iff.1 h)
    exact Split.exists_of_reads hreads hended
  · rintro ⟨split, hsplit, rfl⟩
    exact htokens hsplit
  · have hsame := (htokens h).symm.trans (htokens hother)
    exact Split.parts_eq_of_tokens (h.2.trans hother.2.symm) (Except.ok.inj hsame)

end Scriptlet
