import Scriptlet.Proofs.Grammar
import Scriptlet.Proofs.Places

/-!
# Reading a text with more behind it

A lexeme is what it is by the characters up to the first punctuation behind it, so tokens that end
with a semicolon or a closing curly bracket are read as before when more text is put behind them.
Every statement ends with such a token.
-/

namespace Scriptlet

open Spelling Text

variable {here there : Place} {token : Token} {tokens : List Token}

/-! ## Lexemes -/

/-- A run that does not reach the end of the text is a run with more behind it. -/
theorem IsRun.append {p : Char → Bool} {run rest : List Char} (h : IsRun p run rest)
    (hne : rest ≠ []) (more : List Char) : IsRun p run (rest ++ more) := by
  refine ⟨h.all, ?_⟩
  cases rest with
  | nil => exact absurd rfl hne
  | cons c rest => exact h.stops

/-- A lexeme with some text behind it that is not a point alone stands there with more behind it. -/
theorem Lexeme.Stands.append {lexeme : Lexeme} {body rest : List Char}
    (h : lexeme.Stands body rest) (hne : rest ≠ []) (hpoint : rest ≠ ['.']) (more : List Char) :
    lexeme.Stands body (rest ++ more) := by
  cases h with
  | punctuation hkind => exact .punctuation hkind
  | operator hsome hrun hkind => exact .operator hsome (hrun.append hne more) hkind
  | word hstart hrun => exact .word hstart (hrun.append hne more)
  | string hquote hbody => exact .string hquote hbody
  | whole hsome hrun hfraction =>
      refine .whole hsome (hrun.append hne more) ?_
      intro d after hafter
      -- The character behind a point belongs to the text as well.
      cases rest with
      | nil => exact absurd rfl hne
      | cons first rest =>
          cases rest with
          | nil =>
              obtain rfl : first = '.' := (List.cons.inj hafter).1
              exact absurd rfl hpoint
          | cons second rest =>
              simp only [List.cons_append, List.cons.injEq] at hafter
              obtain ⟨rfl, rfl, -⟩ := hafter
              exact hfraction second rest rfl
  | decimal hsome hwhole hfraction hrun =>
      exact .decimal hsome hwhole hfraction (hrun.append hne more)
  | fraction hsome hrun => exact .fraction hsome (hrun.append hne more)
  | field hblanks hstart hrun => exact .field hblanks hstart (hrun.append hne more)

/-- A run that ends in some text ends there before a character that does not go on with it. -/
theorem IsRun.before {p : Char → Bool} {run front behind : List Char} {c : Char}
    (h : IsRun p run (front ++ behind)) (hc : front = [] → p c = false) (more : List Char) :
    IsRun p run (front ++ c :: more) := by
  refine ⟨h.all, ?_⟩
  cases front with
  | nil => simpa using hc rfl
  | cons first front => exact h.stops

/-- Whether a kind is an operator, of which only its whole run of characters decides. -/
def Kind.isOperator (kind : Kind) : Bool :=
  operators.any fun entry => entry.2 == kind

/-- A lexeme stands before some text as before the same text and a character that goes on neither
with a word nor with a number, nor with an operator right before it. -/
theorem Lexeme.Stands.before {lexeme : Lexeme} {body front behind : List Char} {c : Char}
    (h : lexeme.Stands body (front ++ behind)) (hword : isWordChar c = false) (hpoint : c ≠ '.')
    (hoperator : isOperatorChar c = true → front = [] → lexeme.kind.isOperator = false)
    (more : List Char) : lexeme.Stands body (front ++ c :: more) := by
  have hdigit : c.isDigit = false := (Bool.or_eq_false_iff.1 hword).2
  cases h with
  | punctuation hkind => exact .punctuation hkind
  | @operator _ kind _ hsome hrun hkind =>
      refine .operator hsome (hrun.before (fun hfront => ?_) more) hkind
      rw [Bool.eq_false_iff]
      intro hc
      obtain ⟨before, after, htable, -⟩ := List.lookup_eq_some_iff.1 hkind
      have hno : ∀ entry ∈ operators, entry.2.isOperator = true := by decide
      have hthis : kind.isOperator = true := hno (String.ofList body, kind) (by rw [htable]; simp)
      exact Bool.false_ne_true ((hoperator hc hfront).symm.trans hthis)
  | word hstart hrun => exact .word hstart (hrun.before (fun _ => hword) more)
  | string hquote hbody => exact .string hquote hbody
  | whole hsome hrun hfraction =>
      refine .whole hsome (hrun.before (fun _ => hdigit) more) fun d after hafter => ?_
      -- Neither the character nor what stands behind it is the digit of a fraction.
      match front with
      | [] => exact absurd (List.cons.inj hafter).1 hpoint
      | [_] =>
          obtain rfl : c = d := (List.cons.inj (List.cons.inj hafter).2).1
          exact hdigit
      | first :: second :: front =>
          obtain ⟨hfirst, hafter⟩ := List.cons.inj hafter
          obtain ⟨rfl, -⟩ := List.cons.inj hafter
          exact hfraction second (front ++ behind) (by rw [hfirst]; rfl)
  | decimal hsome hwhole hfraction hrun =>
      exact .decimal hsome hwhole hfraction (hrun.before (fun _ => hdigit) more)
  | fraction hsome hrun => exact .fraction hsome (hrun.before (fun _ => hdigit) more)
  | field hblanks hstart hrun => exact .field hblanks hstart (hrun.before (fun _ => hword) more)

/-- A text with punctuation in it is not a point alone. -/
theorem ne_point_of_mem {rest : List Char} {c : Char} (hmem : c ∈ rest)
    (hmark : (punctuationKind? c).isSome) : rest ≠ ['.'] := by
  rintro rfl
  obtain rfl : c = '.' := by simpa using hmem
  cases hmark

/-- A kind of token that ends statements. -/
def Kind.endsStatement (kind : Kind) : Prop :=
  kind = .semicolon ∨ kind = .closeCurly

/-- What ends a statement is a punctuation character, before whatever stands behind it. -/
theorem Lexeme.Stands.of_endsStatement {lexeme : Lexeme} {body rest : List Char}
    (h : lexeme.Stands body rest) (hkind : lexeme.kind.endsStatement) :
    ∃ c, body = [c] ∧ punctuationKind? c = some lexeme.kind ∧
      ∀ after, lexeme.Stands [c] after := by
  cases h with
  | punctuation hpunctuation =>
      exact ⟨_, rfl, hpunctuation, fun _ => .punctuation hpunctuation⟩
  | @operator _ kind _ _ _ hoperator =>
      obtain ⟨before, after, htable, -⟩ := List.lookup_eq_some_iff.1 hoperator
      have hno : ∀ entry ∈ operators, ¬ (entry.2 = .semicolon ∨ entry.2 = .closeCurly) := by decide
      exact absurd hkind (hno (String.ofList body, kind) (by rw [htable]; simp))
  | word | string | whole | decimal | fraction | field =>
      rcases hkind with hkind | hkind <;> cases hkind

/-! ## Places -/

/-- The place with more text behind it. -/
def Place.append (here : Place) (more : List Char) : Place :=
  ⟨⟨here.cursor.offset, here.cursor.rest ++ more⟩, here.lastStop⟩

/-- Blanks that end before the text does are skipped as before. -/
theorem skipBlanks_append {rest : List Char} (h : dropBlanks rest ≠ []) (offset : Nat)
    (more : List Char) :
    Cursor.skipBlanks ⟨offset, rest ++ more⟩ =
      ⟨(Cursor.skipBlanks ⟨offset, rest⟩).offset, dropBlanks rest ++ more⟩ := by
  have hrun : IsRun isBlank (rest.takeWhile isBlank) (dropBlanks rest ++ more) :=
    (IsRun.of_text rest).append h more
  have htext : rest ++ more = rest.takeWhile isBlank ++ (dropBlanks rest ++ more) := by
    rw [← List.append_assoc]
    exact congrArg (· ++ more) List.takeWhile_append_dropWhile.symm
  have htake : (rest ++ more).takeWhile isBlank = rest.takeWhile isBlank := by
    rw [htext]
    exact hrun.takeWhile_eq
  have hdrop : dropBlanks (rest ++ more) = dropBlanks rest ++ more := by
    rw [htext]
    exact hrun.dropWhile_eq
  unfold Cursor.skipBlanks leadingBlanks
  rw [htake, hdrop]

/-- Where only blanks are left, skipping goes on behind them. -/
theorem skipBlanks_append_of_blank {rest : List Char} (h : dropBlanks rest = []) (offset : Nat)
    (more : List Char) :
    Cursor.skipBlanks ⟨offset, rest ++ more⟩ = Cursor.skipBlanks ⟨offset + rest.length, more⟩ := by
  have hblanks : ∀ c ∈ rest, isBlank c = true := by
    simpa [dropBlanks, List.dropWhile_eq_nil_iff] using h
  unfold Cursor.skipBlanks leadingBlanks dropBlanks
  rw [List.takeWhile_append_of_pos hblanks, List.dropWhile_append_of_pos hblanks,
    List.length_append, Nat.add_assoc]

/-- Where only blanks are left, all of them are skipped. -/
theorem leadingBlanks_of_blank {rest : List Char} (h : dropBlanks rest = []) :
    leadingBlanks rest = rest.length := by
  have htotal := leadingBlanks_add_length rest
  rwa [h, List.length_nil, Nat.add_zero] at htotal

/-- The blanks that a text starts with are not its end. -/
theorem getLast?_dropBlanks {rest : List Char} (h : dropBlanks rest ≠ []) :
    (dropBlanks rest).getLast? = rest.getLast? := by
  have htext : rest.takeWhile isBlank ++ dropBlanks rest = rest := List.takeWhile_append_dropWhile
  rw [← List.getLast?_append_of_ne_nil (rest.takeWhile isBlank) h, htext]

section

variable {body rest : List Char} (hbody : here.cursor.rest = body ++ rest) (more : List Char)

include hbody

/-- A lexeme that stands with more behind it is next with more behind it. -/
theorem Place.next_append {lexeme : Lexeme} (h : lexeme.Stands body (rest ++ more)) :
    (here.append more).Next ⟨lexeme.kind, lexeme.text, ⟨here.cursor.offset, body.length⟩⟩ := by
  refine Place.next_of_stands ?_ h
  rw [← List.append_assoc, ← hbody]
  rfl

/-- Where text is left behind a token, reading goes on there with more behind that. -/
theorem Place.past_append (kind : Kind) (word : String) (hsome : dropBlanks rest ≠ []) :
    (here.append more).past ⟨kind, word, ⟨here.cursor.offset, body.length⟩⟩ =
      (here.past ⟨kind, word, ⟨here.cursor.offset, body.length⟩⟩).append more := by
  have hbody' : (here.append more).cursor.rest = body ++ (rest ++ more) := by
    rw [← List.append_assoc, ← hbody]
    rfl
  have hpast := Place.past_eq hbody' kind word
  rw [show (here.append more).cursor.offset = here.cursor.offset from rfl,
    skipBlanks_append hsome] at hpast
  rw [hpast, Place.past_eq hbody]
  rfl

/-- Where only blanks are left behind a token, reading goes on with what is put behind them. -/
theorem Place.past_append_of_blank (kind : Kind) (word : String) (hblank : dropBlanks rest = []) :
    (here.append more).past ⟨kind, word, ⟨here.cursor.offset, body.length⟩⟩ =
      ⟨Cursor.skipBlanks ⟨here.cursor.offset + body.length + rest.length, more⟩,
        here.cursor.offset + body.length⟩ := by
  have hbody' : (here.append more).cursor.rest = body ++ (rest ++ more) := by
    rw [← List.append_assoc, ← hbody]
    rfl
  have hpast := Place.past_eq hbody' kind word
  rwa [show (here.append more).cursor.offset = here.cursor.offset from rfl,
    skipBlanks_append_of_blank hblank] at hpast

end

/-! ## Tokens -/

/-- The last token is one that ends statements. -/
def EndsStatement (tokens : List Token) : Prop :=
  ∀ last ∈ tokens.getLast?, last.kind.endsStatement

theorem EndsStatement.of_cons {token : Token} {tokens : List Token} (hne : tokens ≠ [])
    (h : EndsStatement (token :: tokens)) : EndsStatement tokens := by
  intro last hlast
  refine h last ?_
  cases tokens with
  | nil => exact absurd rfl hne
  | cons second tokens => simpa using hlast

/-- Tokens whose last parts end statements do so. -/
theorem EndsStatement.append {before after : List Token} (hbefore : EndsStatement before)
    (hafter : EndsStatement after) : EndsStatement (before ++ after) := by
  intro last hlast
  rw [List.getLast?_append, Option.mem_def, Option.or_eq_some_iff] at hlast
  rcases hlast with hlast | ⟨-, hlast⟩
  · exact hafter last hlast
  · exact hbefore last hlast

/-- Tokens end a statement when the last of them does. -/
theorem EndsStatement.concat (before : List Token) (h : token.kind.endsStatement) :
    EndsStatement (before ++ [token]) := by
  intro last hlast
  rw [List.getLast?_concat, Option.mem_some] at hlast
  exact hlast ▸ h

/-- Where tokens that end a statement are read, punctuation stands in the text. -/
theorem Reads.exists_mark (h : Reads here tokens there) (hne : tokens ≠ [])
    (hends : EndsStatement tokens) :
    ∃ c ∈ here.cursor.rest, (punctuationKind? c).isSome = true := by
  induction h with
  | nil => exact absurd rfl hne
  | @cons here token tokens there hnext hrest ih =>
      obtain ⟨lexeme, body, rest, hbody, hstands, rfl, hpast⟩ := hnext.stands
      by_cases hlast : tokens = []
      · subst hlast
        obtain ⟨c, rfl, hkind, -⟩ := hstands.of_endsStatement (hends _ rfl)
        exact ⟨c, by rw [hbody]; simp, by rw [hkind]; rfl⟩
      · obtain ⟨c, hmem, hmark⟩ := ih hlast (hends.of_cons hlast)
        refine ⟨c, ?_, hmark⟩
        rw [hpast] at hmem
        rw [hbody]
        exact List.mem_append_right body ((List.dropWhile_sublist isBlank).subset hmem)

/-- Tokens up to the end of a text that end a statement are read as before with more text behind
them, and lead to the first token of that. -/
theorem Reads.append_text (h : Reads here tokens there) (hended : there.Ended)
    (hends : EndsStatement tokens) (hne : tokens ≠ []) (more : List Char) :
    Reads (here.append more) tokens
      ⟨Cursor.skipBlanks ⟨there.cursor.offset, more⟩, there.lastStop⟩ := by
  induction h with
  | nil => exact absurd rfl hne
  | @cons here token tokens there hnext hrest ih =>
      obtain ⟨lexeme, body, rest, hbody, hstands, rfl, hpast⟩ := hnext.stands
      -- The last token is a mark, which stands before anything; blanks alone are behind it.
      by_cases hlast : tokens = []
      · subst hlast
        obtain ⟨c, rfl, -, hstands'⟩ := hstands.of_endsStatement (hends _ rfl)
        obtain rfl := Reads.nil_iff.1 hrest
        have hblank : dropBlanks rest = [] := by
          have hnone := Place.ended_iff.1 hended
          rw [hpast] at hnone
          exact hnone
        refine .cons (Place.next_append hbody more (hstands' _)) ?_
        rw [Reads.nil_iff, Place.past_append_of_blank hbody more _ _ hblank, hpast]
        show Place.mk (Cursor.skipBlanks
          ⟨here.cursor.offset + [c].length + leadingBlanks rest, more⟩) _ = _
        rw [leadingBlanks_of_blank hblank]
      -- Any other token stands as before, because that mark is still to come.
      · obtain ⟨c, hmem, hmark⟩ := hrest.exists_mark hlast (hends.of_cons hlast)
        rw [hpast] at hmem
        have hsome : dropBlanks rest ≠ [] := List.ne_nil_of_mem hmem
        have hinside : c ∈ rest := (List.dropWhile_sublist isBlank).subset hmem
        refine .cons (Place.next_append hbody more (hstands.append (List.ne_nil_of_mem hinside)
          (ne_point_of_mem hinside hmark) more)) ?_
        rw [Place.past_append hbody more _ _ hsome]
        exact ih hended (hends.of_cons hlast) hlast

/-- A text is read as before with more text behind it, up to the first token of that, if it is from
its first token on. -/
theorem Reads.start_of_append {text more : List Char} (h : Reads (.start text) tokens there)
    (hended : there.Ended)
    (happend : tokens ≠ [] → Reads ((Place.start text).append more) tokens
      ⟨Cursor.skipBlanks ⟨there.cursor.offset, more⟩, there.lastStop⟩) :
    Reads (.start (text ++ more)) tokens
      ⟨Cursor.skipBlanks ⟨text.length, more⟩, there.lastStop⟩ := by
  have hoffset := hended.offset_eq (h.in (Cursor.start_in text))
  by_cases hblank : dropBlanks text = []
  · have hstart : (Place.start text).Ended := Place.ended_iff.2 hblank
    cases h with
    | cons hnext _ => exact absurd hstart hnext.not_ended
    | nil =>
        rw [Reads.nil_iff]
        show _ = Place.mk (Cursor.skipBlanks ⟨0, text ++ more⟩) 0
        rw [skipBlanks_append_of_blank hblank, Nat.zero_add]
        rfl
  · have hne : tokens ≠ [] := by
      rintro rfl
      obtain rfl := Reads.nil_iff.1 h
      exact hblank (Place.ended_iff.1 hended)
    have hreads := happend hne
    rw [hoffset] at hreads
    have hstart : Place.start (text ++ more) = (Place.start text).append more := by
      show Place.mk (Cursor.skipBlanks ⟨0, text ++ more⟩) 0 = _
      rw [skipBlanks_append hblank]
      rfl
    rw [hstart]
    exact hreads

/-- The tokens of a text that end a statement are read as before with more text behind it, up to
the first token of that. -/
theorem Reads.start_append {text : List Char} (h : Reads (.start text) tokens there)
    (hended : there.Ended) (hends : EndsStatement tokens) (more : List Char) :
    Reads (.start (text ++ more)) tokens
      ⟨Cursor.skipBlanks ⟨text.length, more⟩, there.lastStop⟩ :=
  h.start_of_append hended fun hne => h.append_text hended hends hne more

/-! ## Texts before a character -/

/-- Tokens up to the end of a text are read as before with a character behind them that does not go
on with the last one, and lead to that character or the first token behind it. -/
theorem Reads.append_before {c : Char} (h : Reads here tokens there) (hended : there.Ended)
    (hword : isWordChar c = false) (hpoint : c ≠ '.')
    (hoperator : isOperatorChar c = true → ∀ last ∈ tokens.getLast?, last.kind.isOperator = false)
    (hne : tokens ≠ []) (more : List Char) :
    Reads (here.append (c :: more)) tokens
      ⟨Cursor.skipBlanks ⟨there.cursor.offset, c :: more⟩, there.lastStop⟩ := by
  induction h with
  | nil => exact absurd rfl hne
  | @cons here token tokens there hnext hrest ih =>
      obtain ⟨lexeme, body, rest, hbody, hstands, rfl, hpast⟩ := hnext.stands
      rw [← List.append_nil rest] at hstands
      by_cases hlast : tokens = []
      · subst hlast
        obtain rfl := Reads.nil_iff.1 hrest
        have hblank : dropBlanks rest = [] := by
          have hnone := Place.ended_iff.1 hended
          rw [hpast] at hnone
          exact hnone
        refine .cons (Place.next_append hbody (c :: more)
          (hstands.before hword hpoint (fun hc _ => hoperator hc _ rfl) more)) ?_
        rw [Reads.nil_iff, Place.past_append_of_blank hbody (c :: more) _ _ hblank, hpast]
        show Place.mk (Cursor.skipBlanks
          ⟨here.cursor.offset + body.length + leadingBlanks rest, c :: more⟩) _ = _
        rw [leadingBlanks_of_blank hblank]
      · have hsome : dropBlanks rest ≠ [] := by
          intro hnone
          have hstop := Place.ended_iff.2 ((congrArg (·.cursor.rest) hpast).trans hnone)
          exact hlast (hrest.eq_nil_of_ended hstop)
        have hfront : rest ≠ [] := by
          rintro rfl
          exact hsome rfl
        refine .cons (Place.next_append hbody (c :: more)
          (hstands.before hword hpoint (fun _ hnil => absurd hnil hfront) more)) ?_
        rw [Place.past_append hbody (c :: more) _ _ hsome]
        refine ih hended (fun hc last hmem => hoperator hc last ?_) hlast
        rw [← List.singleton_append, List.getLast?_append_of_ne_nil _ hlast]
        exact hmem

/-- The tokens of a text are read as before with a character behind it that does not go on with the
last one, up to that character or the first token behind it. -/
theorem Reads.start_before {text : List Char} {c : Char} (h : Reads (.start text) tokens there)
    (hended : there.Ended) (hword : isWordChar c = false) (hpoint : c ≠ '.')
    (hoperator : isOperatorChar c = true → ∀ last ∈ tokens.getLast?, last.kind.isOperator = false)
    (more : List Char) :
    Reads (.start (text ++ c :: more)) tokens
      ⟨Cursor.skipBlanks ⟨text.length, c :: more⟩, there.lastStop⟩ :=
  h.start_of_append hended fun hne => h.append_before hended hword hpoint hoperator hne more

/-! ## Texts that end with a blank -/

/-- The characters of words, numbers, operators and punctuation are no blanks. -/
theorem isBlank_eq_false {c : Char}
    (h : isWordChar c = true ∨ isOperatorChar c = true ∨ (punctuationKind? c).isSome = true) :
    isBlank c = false := by
  rw [Bool.eq_false_iff]
  intro hblank
  rcases h with hword | hoperator | hmark
  · simp [isWordChar, isWordStart_of_isBlank hblank, isDigit_of_isBlank hblank] at hword
  · have hall : (operatorChars.all fun c => !isBlank c) = true := by decide
    have hno : ∀ c ∈ operatorChars, isBlank c = false := by simpa using hall
    rw [hno c (by simpa [isOperatorChar] using hoperator)] at hblank
    cases hblank
  · obtain ⟨kind, hkind⟩ := Option.isSome_iff_exists.1 hmark
    have hno : ∀ entry ∈ punctuation, isBlank entry.1 = false := by decide
    rw [hno _ (mem_punctuation hkind)] at hblank
    cases hblank

/-- A blank goes on no word and no operator. -/
theorem ends_of_blank {c : Char} (hblank : isBlank c = true) :
    isWordChar c = false ∧ isOperatorChar c = false := by
  have hno := mt (isBlank_eq_false (c := c)) (by simp [hblank])
  simp only [not_or, Bool.not_eq_true] at hno
  exact ⟨hno.1, hno.2.1⟩

/-- A punctuation character goes on no word and no operator, and is no blank. -/
theorem ends_of_mark {c : Char} (hmark : (punctuationKind? c).isSome = true) :
    isWordChar c = false ∧ isOperatorChar c = false ∧ isBlank c = false := by
  refine ⟨?_, ?_, isBlank_eq_false (.inr (.inr hmark))⟩
  · rw [Bool.eq_false_iff]
    intro hword
    rw [(spelling_of_isWordChar hword).1] at hmark
    cases hmark
  · rw [Bool.eq_false_iff]
    intro hoperator
    rw [punctuationKind?_of_isOperatorChar hoperator] at hmark
    cases hmark

/-- No lexeme starts with a blank. -/
theorem Lexeme.Stands.isBlank_head? {lexeme : Lexeme} {body rest : List Char}
    (h : lexeme.Stands body rest) : ∀ c ∈ body.head?, isBlank c = false := by
  have hdigit {d : Char} (h : d.isDigit = true) : isBlank d = false :=
    isBlank_eq_false (.inl (by simp [isWordChar, h]))
  intro c hc
  cases h with
  | @punctuation mark kind _ hkind =>
      obtain rfl : mark = c := by simpa using hc
      exact isBlank_eq_false (.inr (.inr (by rw [hkind]; rfl)))
  | operator _ hchars =>
      exact isBlank_eq_false (.inr (.inl (hchars.all c (List.mem_of_mem_head? hc))))
  | @word first _ _ hstart =>
      obtain rfl : first = c := by simpa using hc
      exact isBlank_eq_false (.inl (by simp [isWordChar, hstart]))
  | @string quote _ _ hquote =>
      obtain rfl : quote = c := by simpa using hc
      rcases hquote with rfl | rfl <;> rfl
  | whole _ hchars => exact hdigit (hchars.all c (List.mem_of_mem_head? hc))
  | @decimal whole _ _ hne hwhole =>
      rw [List.head?_append_of_ne_nil whole hne] at hc
      exact hdigit (hwhole c (List.mem_of_mem_head? hc))
  | fraction | field =>
      obtain rfl : '.' = c := by simpa using hc
      rfl

/-- No lexeme ends with a blank. -/
theorem Lexeme.Stands.isBlank_getLast? {lexeme : Lexeme} {body rest : List Char}
    (h : lexeme.Stands body rest) : ∀ c ∈ body.getLast?, isBlank c = false := by
  intro c hc
  -- A run at the end of the body has the last character.
  have hrun {before run : List Char} (hbody : body = before ++ run) (hne : run ≠ [])
      (hall : ∀ d ∈ run, isBlank d = false) : isBlank c = false := by
    rw [hbody, List.getLast?_append_of_ne_nil before hne] at hc
    exact hall c (List.mem_of_getLast? hc)
  have hdigit {d : Char} (h : d.isDigit = true) : isBlank d = false :=
    isBlank_eq_false (.inl (by simp [isWordChar, h]))
  cases h with
  | @punctuation mark kind _ hkind =>
      obtain rfl : mark = c := by simpa using hc
      exact isBlank_eq_false (.inr (.inr (by rw [hkind]; rfl)))
  | operator hne hchars =>
      exact hrun (List.nil_append _).symm hne fun d hd =>
        isBlank_eq_false (.inr (.inl (hchars.all d hd)))
  | word hstart hchars =>
      refine hrun (List.nil_append _).symm (List.cons_ne_nil _ _) (List.forall_mem_cons.2 ⟨?_, ?_⟩)
      · exact isBlank_eq_false (.inl (by simp [isWordChar, hstart]))
      · exact fun d hd => isBlank_eq_false (.inl (hchars.all d hd))
  | @string quote body _ hquote =>
      refine hrun (List.cons_append (a := quote)).symm (List.cons_ne_nil quote []) ?_
      rcases hquote with rfl | rfl <;> exact List.forall_mem_singleton.2 rfl
  | whole hne hchars =>
      exact hrun (List.nil_append _).symm hne fun d hd => hdigit (hchars.all d hd)
  | @decimal whole fraction _ _ _ hne hchars =>
      exact hrun (List.append_cons whole '.' fraction) hne fun d hd => hdigit (hchars.all d hd)
  | fraction hne hchars =>
      exact hrun List.singleton_append.symm hne fun d hd => hdigit (hchars.all d hd)
  | @field blanks first name _ _ hstart hchars =>
      refine hrun (List.cons_append (a := '.')).symm (List.cons_ne_nil first name)
        (List.forall_mem_cons.2 ⟨?_, ?_⟩)
      · exact isBlank_eq_false (.inl (by simp [isWordChar, hstart]))
      · exact fun d hd => isBlank_eq_false (.inl (hchars.all d hd))

/-- Tokens up to the end of a text that ends with a blank are read as before with more text behind
them, and lead to the first token of that. -/
theorem Reads.append_blank {c : Char} (h : Reads here tokens there) (hended : there.Ended)
    (hlast : here.cursor.rest.getLast? = some c) (hc : isBlank c = true) (more : List Char) :
    Reads (here.append more) tokens
      ⟨Cursor.skipBlanks ⟨there.cursor.offset, more⟩, there.lastStop⟩ := by
  induction h with
  | nil =>
      rw [Place.ended_iff.1 hended] at hlast
      cases hlast
  | @cons here token tokens there hnext hrest ih =>
      obtain ⟨lexeme, body, rest, hbody, hstands, rfl, hpast⟩ := hnext.stands
      -- The blank at the end stands behind the lexeme.
      have hbehind : rest.getLast? = some c := by
        rw [hbody, List.getLast?_append, Option.or_eq_some_iff] at hlast
        rcases hlast with hlast | ⟨-, hlast⟩
        · exact hlast
        · rw [hstands.isBlank_getLast? c hlast] at hc
          cases hc
      have hne : rest ≠ [] := by
        rintro rfl
        cases hbehind
      have hpoint : rest ≠ ['.'] := by
        rintro rfl
        obtain rfl := Option.some.inj hbehind
        cases hc
      refine .cons (Place.next_append hbody more (hstands.append hne hpoint more)) ?_
      by_cases hsome : dropBlanks rest = []
      · have hstop := Place.ended_iff.2 ((congrArg (·.cursor.rest) hpast).trans hsome)
        obtain rfl := hrest.eq_nil_of_ended hstop
        obtain rfl := Reads.nil_iff.1 hrest
        rw [Reads.nil_iff, Place.past_append_of_blank hbody more _ _ hsome, hpast]
        show Place.mk (Cursor.skipBlanks
          ⟨here.cursor.offset + body.length + leadingBlanks rest, more⟩) _ = _
        rw [leadingBlanks_of_blank hsome]
      · rw [Place.past_append hbody more _ _ hsome]
        refine ih hended ?_
        rw [hpast]
        exact (getLast?_dropBlanks hsome).trans hbehind

/-- The tokens of a text that ends with a blank are read as before with more text behind it, up to
the first token of that. -/
theorem Reads.start_append_blank {text : List Char} {c : Char}
    (h : Reads (.start text) tokens there) (hended : there.Ended)
    (hlast : text.getLast? = some c) (hc : isBlank c = true) (more : List Char) :
    Reads (.start (text ++ more)) tokens
      ⟨Cursor.skipBlanks ⟨text.length, more⟩, there.lastStop⟩ := by
  refine h.start_of_append hended fun hne => h.append_blank hended ?_ hc more
  refine (getLast?_dropBlanks ?_).trans hlast
  intro hblank
  have hstart : (Place.start text).Ended := Place.ended_iff.2 hblank
  exact hne (h.eq_nil_of_ended hstart)

/-! ## Statements -/

namespace Phrases

variable {below : Phrases}

/-- Every statement ends with a token that ends statements. -/
theorem IsBody.endsStatement {statement : Statement} (h : below.IsBody tokens statement) :
    EndsStatement tokens := by
  cases h with
  | declaration _ _ _ _ hsemicolon => exact .concat (_ :: _) (.inl hsemicolon)
  | @initialized keyword _ name _ assign more _ semicolon _ _ _ _ _ hsemicolon =>
      have hends := EndsStatement.concat (keyword :: (name ++ assign :: more)) (.inl hsemicolon)
      simpa using hends
  | @function keyword name _ bracket more _ _ _ _ _ _ _ _ hblock =>
      cases hblock with
      | @intro brace inner _ close _ _ hclose =>
          have hends := EndsStatement.concat
            (keyword :: (name ++ bracket :: (more ++ brace :: inner))) (.inr hclose)
          simpa using hends
  | expression _ _ hsemicolon => exact .concat _ (.inl hsemicolon)

theorem IsStatement.endsStatement {statement : Statement} (h : below.IsStatement tokens statement) :
    EndsStatement tokens := by
  cases h with
  | intro hbody hkinds =>
      refine hbody.endsStatement.append ?_
      intro last hlast
      exact .inl (hkinds last (List.mem_of_mem_getLast? hlast))

end Phrases

/-- A program ends with a token that ends statements, if it has any. -/
theorem Derives.endsStatement {height : Nat} {statements : List Statement}
    (h : Derives height tokens statements) : EndsStatement tokens := by
  unfold Derives at h
  induction h with
  | nil => exact fun _ hnone => nomatch hnone
  | cons hstatement _ ih =>
      cases height with
      | zero => exact hstatement.elim
      | succ height => exact (Phrases.IsStatement.endsStatement hstatement).append ih

/-! ## Expressions -/

namespace Phrases

variable {below : Phrases} {mode : Mode} {start : Nat} {node expr : Expr}

/-- Some tokens end as expressions do: not with an operator. -/
def Ending (tokens : List Token) : Prop :=
  ∃ before last, tokens = before ++ [last] ∧ last.kind.isOperator = false

namespace Ending

theorem single {token : Token} (h : token.kind.isOperator = false) : Ending [token] :=
  ⟨[], token, rfl, h⟩

/-- What is in brackets ends with the closing one. -/
theorem enclosed {opening closing : Token} (inner : List Token)
    (h : closing.kind.isOperator = false) : Ending (opening :: (inner ++ [closing])) :=
  ⟨opening :: inner, closing, rfl, h⟩

theorem append (h : Ending tokens) (before : List Token) : Ending (before ++ tokens) := by
  obtain ⟨initial, last, rfl, hlast⟩ := h
  exact ⟨before ++ initial, last, (List.append_assoc _ _ _).symm, hlast⟩

theorem of_kinds {others : List Token} (h : Ending tokens)
    (hkinds : others.map (·.kind) = tokens.map (·.kind)) : Ending others := by
  obtain ⟨before, last, rfl, hlast⟩ := h
  rw [List.map_append, List.map_singleton] at hkinds
  obtain ⟨before', behind, rfl, -, hbehind⟩ := List.map_eq_append_iff.1 hkinds
  obtain ⟨last', rfl, hkind⟩ := List.map_eq_singleton_iff.1 hbehind
  exact ⟨before', last', rfl, hkind ▸ hlast⟩

/-- What ends as expressions do does so with more behind it that is empty or ends so. -/
theorem before (h : Ending tokens) (hmore : more = [] ∨ Ending more) : Ending (tokens ++ more) := by
  rcases hmore with rfl | hmore
  · rwa [List.append_nil]
  · exact hmore.append tokens

end Ending

section

variable (hbelow : ∀ {mode tokens expr}, below.expr mode tokens expr → Ending tokens)

theorem IsBlock.ending {statements : List Statement} (h : below.IsBlock tokens statements) :
    Ending tokens := by
  cases h with
  | intro _ _ hclose => exact .enclosed _ (by rw [hclose]; rfl)

theorem IsObject.ending (h : below.IsObject tokens expr) : Ending tokens := by
  cases h with
  | intro _ _ hclose => exact .enclosed _ (by rw [hclose]; rfl)

theorem IsPrimary.ending (h : below.IsPrimary tokens node) : Ending tokens := by
  cases h with
  | name hkind | string hkind | number hkind => exact .single (by rw [hkind]; rfl)
  | group _ _ hclose => exact .enclosed _ (by rw [hclose]; rfl)
  | object hobject => exact hobject.ending

theorem IsLink.ending {next : Expr} (h : below.IsLink start node tokens next) : Ending tokens := by
  cases h with
  | field hkind => exact .single (by rw [hkind]; rfl)
  | index _ _ hclose => exact .enclosed _ (by rw [hclose]; rfl)
  | call _ hclosed =>
      cases hclosed with
      | empty hclose => exact .enclosed [] (by rw [hclose]; rfl)
      | filled _ hclose => exact .enclosed _ (by rw [hclose]; rfl)

include hbelow

theorem IsSlot.ending {slot : Slot} (h : below.IsSlot mode tokens slot) : Ending tokens := by
  cases h with
  | intro hexpr => exact hbelow hexpr

theorem IsEnd.ending (h : below.IsEnd mode start node tokens expr) :
    tokens = [] ∨ Ending tokens := by
  cases h with
  | stop => exact .inl rfl
  | @comma comma _ _ _ _ hright => exact .inr ((hbelow hright).append [comma])

theorem IsTail.ending (h : below.IsTail mode start node tokens expr) :
    tokens = [] ∨ Ending tokens := by
  induction h with
  | done hend => exact hend.ending hbelow
  | link hlink _ ih => exact .inr (hlink.ending.before ih)
  | @fallback _ assign _ _ _ _ _ _ hslot hend =>
      exact .inr (((hslot.ending hbelow).before (hend.ending hbelow)).append [assign])

theorem IsExpression.ending (h : below.IsExpression mode tokens expr) : Ending tokens := by
  cases h with
  | chain hprimary htail => exact hprimary.ending.before (htail.ending hbelow)
  | @unpacking object _ _ assign _ _ _ _ _ _ _ hslot hend =>
      exact (((hslot.ending hbelow).before (hend.ending hbelow)).append [assign]).append object
  | @arrow parameters _ arrow _ _ _ _ _ hslot =>
      exact ((hslot.ending hbelow).append [arrow]).append parameters
  | @arrowBlock parameters _ arrow _ _ _ _ _ _ hblock htail =>
      exact ((hblock.ending.before (htail.ending hbelow)).append [arrow]).append parameters

end

/-- No expression ends with an operator. -/
theorem ending_ofHeight (height : Nat) :
    (ofHeight height).expr mode tokens expr → Ending tokens := by
  induction height generalizing mode tokens expr with
  | zero => exact False.elim
  | succ height ih => exact IsExpression.ending ih

end Phrases

end Scriptlet
