import Scriptlet.Token.Scan
import Mathlib.Data.List.TakeWhile

/-!
# Where lexemes stand

`lexeme.Stands body rest` says, without a word on how a text is scanned, that `body` spells the
lexeme and that the rest of the text cannot make it longer. `scan_eq_some_iff` says that the scanner
finds exactly these lexemes. So a lexeme depends on what follows it by its first character only, and
by the second one after a number and a point.
-/

namespace Scriptlet

open Spelling Text

/-- A run of characters that the rest of a text does not go on with. -/
structure IsRun (p : Char → Bool) (run rest : List Char) : Prop where
  all : ∀ c ∈ run, p c = true
  stops : ∀ c ∈ rest.head?, p c = false

namespace IsRun

variable {p : Char → Bool} {run rest : List Char}

/-- Every text starts with a run, which may be empty. -/
theorem of_text (text : List Char) : IsRun p (text.takeWhile p) (text.dropWhile p) where
  all c hc := List.mem_takeWhile_imp hc
  stops c hc := by
    have hnot := List.head?_dropWhile_not p text
    rw [Option.mem_def.1 hc] at hnot
    exact hnot

theorem takeWhile_eq (h : IsRun p run rest) : (run ++ rest).takeWhile p = run := by
  rw [List.takeWhile_append_of_pos h.all]
  cases rest with
  | nil => simp
  | cons c rest => simp [h.stops c rfl]

theorem dropWhile_eq (h : IsRun p run rest) : (run ++ rest).dropWhile p = rest := by
  rw [List.dropWhile_append_of_pos h.all]
  cases rest with
  | nil => rfl
  | cons c rest => simp [h.stops c rfl]

/-- A run is what a text starts with. -/
theorem exists_rest (p : Char → Bool) (text : List Char) :
    ∃ rest, text = text.takeWhile p ++ rest ∧ IsRun p (text.takeWhile p) rest :=
  ⟨text.dropWhile p, List.takeWhile_append_dropWhile.symm, of_text text⟩

end IsRun

/-! ## Characters -/

section

variable {c : Char}

theorem isDigit_iff : c.isDigit = true ↔ 48 ≤ c.toNat ∧ c.toNat ≤ 57 := by
  simp only [Char.isDigit, ge_iff_le, Bool.and_eq_true, decide_eq_true_eq, UInt32.le_iff_toNat_le]
  exact Iff.rfl

theorem isWordStart_iff :
    isWordStart c = true ↔
      (65 ≤ c.toNat ∧ c.toNat ≤ 90) ∨ (97 ≤ c.toNat ∧ c.toNat ≤ 122) ∨ c.toNat = 95 := by
  have halpha : c.isAlpha = (c.isUpper || c.isLower) := rfl
  have hupper : c.isUpper = decide (65 ≤ c.val ∧ c.val ≤ 90) := rfl
  have hlower : c.isLower = (decide (97 ≤ c.val) && decide (c.val ≤ 122)) := rfl
  simp only [isWordStart, halpha, hupper, hlower, Bool.or_eq_true, Bool.and_eq_true,
    decide_eq_true_eq, UInt32.le_iff_toNat_le, beq_iff_eq, Char.ext_iff, ← UInt32.toNat_inj,
    or_assoc]
  exact Iff.rfl

/-- Blanks lie outside the printed characters of ASCII. -/
theorem toNat_of_isBlank (h : isBlank c = true) : c.toNat ≤ 32 ∨ 127 < c.toNat := by
  simp only [isBlank, List.any_eq_true, Bool.and_eq_true, decide_eq_true_eq] at h
  obtain ⟨range, hrange, hbelow, habove⟩ := h
  have hranges : ∀ range ∈ blankRanges, range.2 ≤ 32 ∨ 127 < range.1 := by decide
  rcases hranges range hrange with hlow | hhigh <;> omega

theorem isDigit_of_isBlank (h : isBlank c = true) : c.isDigit = false := by
  rw [Bool.eq_false_iff, ne_eq, isDigit_iff]
  have hcode := toNat_of_isBlank h
  omega

theorem isWordStart_of_isBlank (h : isBlank c = true) : isWordStart c = false := by
  rw [Bool.eq_false_iff, ne_eq, isWordStart_iff]
  have hcode := toNat_of_isBlank h
  omega

theorem isDigit_of_isWordStart (h : isWordStart c = true) : c.isDigit = false := by
  rw [isWordStart_iff] at h
  rw [Bool.eq_false_iff, ne_eq, isDigit_iff]
  omega

/-- A punctuation character is one of the table. -/
theorem mem_punctuation {kind : Kind} (h : punctuationKind? c = some kind) :
    (c, kind) ∈ punctuation := by
  obtain ⟨before, after, htable, -⟩ := List.lookup_eq_some_iff.1 h
  rw [htable]
  simp

/-- A character that starts none of the punctuation is no punctuation. -/
theorem punctuationKind?_eq_none (h : ∀ entry ∈ punctuation, entry.1 ≠ c) :
    punctuationKind? c = none := by
  cases hkind : punctuationKind? c with
  | none => rfl
  | some kind => exact absurd rfl (h _ (mem_punctuation hkind))

theorem punctuationKind?_of_isOperatorChar (h : isOperatorChar c = true) :
    punctuationKind? c = none := by
  refine punctuationKind?_eq_none ?_
  rintro entry hentry rfl
  have hno : ∀ entry ∈ punctuation, isOperatorChar entry.1 = false := by decide
  rw [hno entry hentry] at h
  cases h

/-- Words and numbers start with neither punctuation nor operators. -/
theorem spelling_of_isWordChar (h : isWordChar c = true) :
    punctuationKind? c = none ∧ isOperatorChar c = false := by
  constructor
  · refine punctuationKind?_eq_none ?_
    rintro entry hentry rfl
    have hno : ∀ entry ∈ punctuation, isWordChar entry.1 = false := by decide
    rw [hno entry hentry] at h
    cases h
  · rw [Bool.eq_false_iff]
    intro hoperator
    have hall : (operatorChars.all fun c => !isWordChar c) = true := by decide
    have hno : ∀ c ∈ operatorChars, isWordChar c = false := by simpa using hall
    rw [hno c (by simpa [isOperatorChar] using hoperator)] at h
    cases h

end

namespace Lexeme

/-- The characters between the quotes of a string, after `previous`: none is a line feed, each
quote comes after a backslash, and the last one is no backslash. -/
def IsStringBody (quote : Char) : Char → List Char → Prop
  | previous, [] => previous ≠ '\\'
  | previous, c :: rest => c ≠ '\n' ∧ (c = quote → previous = '\\') ∧ IsStringBody quote c rest

/-- The body spells the lexeme, and the rest of the text cannot make it longer. -/
inductive Stands : Lexeme → List Char → List Char → Prop where
  | punctuation {c kind rest} :
      punctuationKind? c = some kind → Stands (spelled kind [c]) [c] rest
  | operator {run kind rest} :
      run ≠ [] → IsRun isOperatorChar run rest → operatorKind? (String.ofList run) = some kind →
      Stands (spelled kind run) run rest
  | word {c more rest} :
      isWordStart c = true → IsRun isWordChar more rest →
      Stands (spelled .word (c :: more)) (c :: more) rest
  | string {quote body rest} :
      quote = '\'' ∨ quote = '"' → IsStringBody quote quote body →
      Stands ⟨.string, String.ofList body, body.length + 2⟩ (quote :: (body ++ [quote])) rest
  | whole {digits rest} :
      digits ≠ [] → IsRun Char.isDigit digits rest →
      (∀ d more, rest = '.' :: d :: more → d.isDigit = false) →
      Stands (spelled .number digits) digits rest
  | decimal {whole fraction rest} :
      whole ≠ [] → (∀ d ∈ whole, d.isDigit = true) → fraction ≠ [] →
      IsRun Char.isDigit fraction rest →
      Stands (spelled .number (whole ++ '.' :: fraction)) (whole ++ '.' :: fraction) rest
  | fraction {digits rest} :
      digits ≠ [] → IsRun Char.isDigit digits rest →
      Stands ⟨.number, String.ofList ('0' :: '.' :: digits), 1 + digits.length⟩ ('.' :: digits) rest
  | field {blanks c more rest} :
      (∀ b ∈ blanks, isBlank b = true) → isWordStart c = true → IsRun isWordChar more rest →
      Stands ⟨.field, String.ofList (c :: more), 1 + blanks.length + (c :: more).length⟩
        ('.' :: (blanks ++ c :: more)) rest

variable {c : Char} {text body rest : List Char} {lexeme : Lexeme}

/-- A lexeme is as long as its body. -/
theorem Stands.length_eq (h : lexeme.Stands body rest) : lexeme.length = body.length := by
  cases h with
  | punctuation | operator | word | whole | decimal => rfl
  | string => simp
  | fraction | field =>
      simp only [List.length_cons, List.length_append]
      omega

/-! ## Strings -/

/-- The quote that ends a string is the first one that may. -/
theorem stringBody_eq_some_iff {quote previous : Char} {taken text found : List Char}
    (hquote : quote ≠ '\n') :
    stringBody quote previous taken text = some found ↔
      ∃ body rest, text = body ++ quote :: rest ∧ found = taken.reverse ++ body ∧
        IsStringBody quote previous body := by
  induction text generalizing previous taken with
  | nil => simp [stringBody]
  | cons c text ih =>
      rw [stringBody]
      by_cases hline : c = '\n'
      · rw [if_pos hline]
        refine iff_of_false (by simp) ?_
        rintro ⟨body, rest, htext, -, hbody⟩
        cases body with
        | nil => exact hquote ((List.cons.inj htext).1.symm.trans hline)
        | cons b body => exact hbody.1 ((List.cons.inj htext).1.symm.trans hline)
      · rw [if_neg hline]
        by_cases hend : c = quote ∧ previous ≠ '\\'
        · rw [if_pos hend]
          constructor
          · intro hfound
            cases hfound
            exact ⟨[], text, by rw [hend.1]; rfl, by simp, hend.2⟩
          · rintro ⟨body, rest, htext, rfl, hbody⟩
            cases body with
            | nil => simp
            | cons b body =>
                obtain ⟨rfl, -⟩ := List.cons.inj htext
                exact absurd (hbody.2.1 hend.1) hend.2
        · rw [if_neg hend, ih]
          constructor
          · rintro ⟨body, rest, rfl, rfl, hbody⟩
            refine ⟨c :: body, rest, rfl, by simp, hline, ?_, hbody⟩
            intro hc
            exact Classical.not_not.1 fun hprevious => hend ⟨hc, hprevious⟩
          · rintro ⟨body, rest, htext, rfl, hbody⟩
            cases body with
            | nil => exact absurd ⟨(List.cons.inj htext).1, hbody⟩ hend
            | cons b body =>
                obtain ⟨rfl, rfl⟩ := List.cons.inj htext
                exact ⟨body, rest, rfl, by simp, hbody.2.2⟩

theorem scanString_eq_ok_iff {quote : Char} (hquote : quote ≠ '\n') :
    scanString quote text = .ok lexeme ↔
      ∃ body rest, text = body ++ quote :: rest ∧ IsStringBody quote quote body ∧
        lexeme = ⟨.string, String.ofList body, body.length + 2⟩ := by
  unfold scanString
  constructor
  · intro h
    split at h
    · next found hfound =>
      obtain ⟨body, rest, htext, hsame, hbody⟩ := (stringBody_eq_some_iff hquote).1 hfound
      obtain rfl : found = body := hsame
      exact ⟨found, rest, htext, hbody, (Except.ok.inj h).symm⟩
    · cases h
  · rintro ⟨body, rest, rfl, hbody, rfl⟩
    rw [(stringBody_eq_some_iff hquote).2 ⟨body, rest, rfl, rfl, hbody⟩]
    rfl

/-! ## Numbers and points -/

/-- Digits that are no fraction are a whole number. -/
theorem scanNumber_whole {digits : List Char} (h : IsRun Char.isDigit digits rest)
    (hfraction : ∀ d more, rest = '.' :: d :: more → d.isDigit = false) :
    scanNumber (digits ++ rest) = spelled .number digits := by
  simp only [scanNumber, h.takeWhile_eq, h.dropWhile_eq]
  split
  · next after =>
    cases after with
    | nil => rfl
    | cons d more => simp [hfraction d more rfl]
  · rfl

/-- Digits, a point and digits are a decimal number. -/
theorem scanNumber_decimal {whole fraction : List Char} (hwhole : ∀ d ∈ whole, d.isDigit = true)
    (hne : fraction ≠ []) (h : IsRun Char.isDigit fraction rest) :
    scanNumber (whole ++ '.' :: (fraction ++ rest)) =
      spelled .number (whole ++ '.' :: fraction) := by
  have hrun : IsRun Char.isDigit whole ('.' :: (fraction ++ rest)) :=
    ⟨hwhole, fun c hc => by cases Option.mem_some.1 hc; rfl⟩
  simp only [scanNumber, hrun.takeWhile_eq, hrun.dropWhile_eq, h.takeWhile_eq]
  rw [if_neg (by simpa using hne)]

/-- A run of operator characters is scanned as a whole. -/
theorem scanOperator_stands (hc : isOperatorChar c = true)
    (h : scanOperator (c :: rest) = .ok lexeme) :
    ∃ body after, c :: rest = body ++ after ∧ lexeme.Stands body after := by
  obtain ⟨after, htext, hrun⟩ := IsRun.exists_rest isOperatorChar (c :: rest)
  have hne : (c :: rest).takeWhile isOperatorChar ≠ [] := by simp [hc]
  simp only [scanOperator] at h
  split at h
  · next kind hkind =>
    cases h
    exact ⟨_, after, htext, .operator hne hrun hkind⟩
  · cases h

/-- What starts as a word does is a word. -/
theorem scanWord_stands (hc : isWordStart c = true) (rest : List Char) :
    ∃ body after, c :: rest = body ++ after ∧ (scanWord (c :: rest)).Stands body after := by
  have hchar : isWordChar c = true := by simp [isWordChar, hc]
  refine ⟨c :: rest.takeWhile isWordChar, rest.dropWhile isWordChar, ?_, ?_⟩
  · rw [List.cons_append, List.takeWhile_append_dropWhile]
  · simp only [scanWord, List.takeWhile_cons, hchar, if_true]
    exact .word hc (.of_text rest)

/-- What starts with a digit is a number. -/
theorem scanNumber_stands (hc : c.isDigit = true) (rest : List Char) :
    ∃ body after, c :: rest = body ++ after ∧ (scanNumber (c :: rest)).Stands body after := by
  obtain ⟨after, htext, hwhole⟩ := IsRun.exists_rest Char.isDigit (c :: rest)
  have hne : (c :: rest).takeWhile Char.isDigit ≠ [] := by simp [hc]
  generalize (c :: rest).takeWhile Char.isDigit = whole at htext hwhole hne
  rw [htext]
  -- A point belongs to the number only if a digit stands behind it.
  by_cases hpoint : ∃ d more, after = '.' :: d :: more ∧ d.isDigit = true
  · obtain ⟨d, more, rfl, hd⟩ := hpoint
    obtain ⟨behind, hmore, hfraction⟩ := IsRun.exists_rest Char.isDigit (d :: more)
    have hsome : (d :: more).takeWhile Char.isDigit ≠ [] := by simp [hd]
    generalize (d :: more).takeWhile Char.isDigit = fraction at hmore hfraction hsome
    rw [hmore, scanNumber_decimal hwhole.all hsome hfraction]
    exact ⟨whole ++ '.' :: fraction, behind, by simp, .decimal hne hwhole.all hsome hfraction⟩
  · have hfraction : ∀ d more, after = '.' :: d :: more → d.isDigit = false :=
      fun d more hafter => Bool.eq_false_iff.2 fun hd => hpoint ⟨d, more, hafter, hd⟩
    rw [scanNumber_whole hwhole hfraction]
    exact ⟨whole, after, rfl, .whole hne hwhole hfraction⟩

/-- A point starts a fraction or an access to a field. -/
theorem scanPoint_stands (h : scanPoint text = .ok lexeme) :
    ∃ body after, text = body ++ after ∧ lexeme.Stands ('.' :: body) after := by
  simp only [scanPoint] at h
  obtain ⟨behind, htext, hdigits⟩ := IsRun.exists_rest Char.isDigit text
  generalize text.takeWhile Char.isDigit = digits at h htext hdigits
  split at h
  · split at h
    · next c rest hrest =>
      split at h
      · have hblanks : ∀ b ∈ text.takeWhile isBlank, isBlank b = true :=
          fun b hb => List.mem_takeWhile_imp hb
        have hname : IsRun isWordChar (rest.takeWhile isWordChar) (rest.dropWhile isWordChar) :=
          .of_text rest
        cases h
        refine ⟨text.takeWhile isBlank ++ c :: rest.takeWhile isWordChar, rest.dropWhile isWordChar,
          ?_, .field hblanks ‹_› hname⟩
        rw [List.append_assoc, List.cons_append, List.takeWhile_append_dropWhile, ← hrest]
        exact List.takeWhile_append_dropWhile.symm
      · cases h
    · cases h
  · next hne =>
    cases h
    exact ⟨digits, behind, htext, .fraction (by simpa using hne) hdigits⟩

theorem scanPoint_fraction {digits : List Char} (hne : digits ≠ [])
    (h : IsRun Char.isDigit digits rest) :
    scanPoint (digits ++ rest) =
      .ok ⟨.number, String.ofList ('0' :: '.' :: digits), 1 + digits.length⟩ := by
  simp only [scanPoint, h.takeWhile_eq]
  rw [if_neg (by simpa using hne)]

/-- A name may stand after blanks behind the point. -/
theorem scanPoint_field {blanks more : List Char} (hblanks : ∀ b ∈ blanks, isBlank b = true)
    (hstart : isWordStart c = true) (h : IsRun isWordChar more rest) :
    scanPoint (blanks ++ c :: (more ++ rest)) =
      .ok ⟨.field, String.ofList (c :: more), 1 + blanks.length + (c :: more).length⟩ := by
  have hrun : IsRun isBlank blanks (c :: (more ++ rest)) := by
    refine ⟨hblanks, fun first hfirst => ?_⟩
    obtain rfl := Option.mem_some.1 hfirst
    rw [Bool.eq_false_iff]
    intro hblank
    rw [isWordStart_of_isBlank hblank] at hstart
    cases hstart
  have hdigits : (blanks ++ c :: (more ++ rest)).takeWhile Char.isDigit = [] := by
    cases blanks with
    | nil => simp [isDigit_of_isWordStart hstart]
    | cons b blanks => simp [isDigit_of_isBlank (hblanks b (by simp))]
  simp only [scanPoint, hdigits, dropBlanks, leadingBlanks, hrun.dropWhile_eq, hrun.takeWhile_eq,
    h.takeWhile_eq, hstart]
  rfl

/-! ## The scanner -/

section

variable (rest : List Char)

theorem scan_of_isOperatorChar (h : isOperatorChar c = true) :
    scan (c :: rest) = some <$> scanOperator (c :: rest) := by
  simp only [scan, punctuationKind?_of_isOperatorChar h, h, if_true]

theorem scan_of_isWordStart (h : isWordStart c = true) :
    scan (c :: rest) = .ok (some (scanWord (c :: rest))) := by
  obtain ⟨hpunctuation, hoperator⟩ := spelling_of_isWordChar (c := c) (by simp [isWordChar, h])
  simp [scan, hpunctuation, hoperator, h]

theorem scan_of_quote (h : c = '\'' ∨ c = '"') : scan (c :: rest) = some <$> scanString c rest := by
  rcases h with rfl | rfl <;> rfl

theorem scan_of_isDigit (h : c.isDigit = true) :
    scan (c :: rest) = .ok (some (scanNumber (c :: rest))) := by
  obtain ⟨hpunctuation, hoperator⟩ := spelling_of_isWordChar (c := c) (by simp [isWordChar, h])
  have hword : isWordStart c = false := by
    rw [Bool.eq_false_iff]
    intro hword
    rw [isDigit_of_isWordStart hword] at h
    cases h
  have hquote : ¬ (c = '\'' ∨ c = '"') := by
    rintro (rfl | rfl) <;> cases h
  simp only [scan, hpunctuation, hoperator, hword, hquote, h, if_true, if_false, Bool.false_eq_true]

theorem scan_point : scan ('.' :: rest) = some <$> scanPoint rest := rfl

end

/-- What the scanner finds stands where it finds it. -/
theorem stands_of_scan (h : scan text = .ok (some lexeme)) :
    ∃ body rest, text = body ++ rest ∧ lexeme.Stands body rest := by
  have hmapped {result : Except Fault Lexeme} (h : some <$> result = .ok (some lexeme)) :
      result = .ok lexeme := by
    cases result <;> cases h
    rfl
  -- The first character decides, in the order that the scanner asks about it.
  cases text with
  | nil => cases h
  | cons c rest =>
      by_cases hpunctuation : ∃ kind, punctuationKind? c = some kind
      · obtain ⟨kind, hkind⟩ := hpunctuation
        simp only [scan, hkind] at h
        cases h
        exact ⟨[c], rest, rfl, .punctuation hkind⟩
      by_cases hoperator : isOperatorChar c = true
      · rw [scan_of_isOperatorChar rest hoperator] at h
        exact scanOperator_stands hoperator (hmapped h)
      by_cases hword : isWordStart c = true
      · rw [scan_of_isWordStart rest hword] at h
        cases h
        exact scanWord_stands hword rest
      by_cases hquote : c = '\'' ∨ c = '"'
      · rw [scan_of_quote rest hquote] at h
        have hline : c ≠ '\n' := by rcases hquote with rfl | rfl <;> decide
        obtain ⟨body, after, rfl, hbody, rfl⟩ := (scanString_eq_ok_iff hline).1 (hmapped h)
        exact ⟨c :: (body ++ [c]), after, by simp, .string hquote hbody⟩
      by_cases hdigit : c.isDigit = true
      · rw [scan_of_isDigit rest hdigit] at h
        cases h
        exact scanNumber_stands hdigit rest
      by_cases hpoint : c = '.'
      · subst hpoint
        rw [scan_point] at h
        obtain ⟨body, after, rfl, hstands⟩ := scanPoint_stands (hmapped h)
        exact ⟨'.' :: body, after, rfl, hstands⟩
      -- No lexeme starts with any other character.
      have hkind : punctuationKind? c = none := by
        cases hkind : punctuationKind? c with
        | none => rfl
        | some kind => exact absurd ⟨kind, hkind⟩ hpunctuation
      simp only [scan, hkind, hoperator, hword, hquote, hdigit, hpoint, if_false,
        Bool.false_eq_true] at h
      cases h

/-- The scanner finds what stands at the start of a text. -/
theorem Stands.scan_eq (h : lexeme.Stands body rest) : scan (body ++ rest) = .ok (some lexeme) := by
  cases h with
  | punctuation hkind => simp [scan, hkind]
  | @operator run kind _ hne hrun hkind =>
      obtain ⟨c, more, rfl⟩ := List.exists_cons_of_ne_nil hne
      rw [List.cons_append, scan_of_isOperatorChar _ (hrun.all c (by simp)), ← List.cons_append]
      simp only [scanOperator, hrun.takeWhile_eq, hkind]
      rfl
  | @word c more _ hstart hrun =>
      have hchar : isWordChar c = true := by simp [isWordChar, hstart]
      rw [List.cons_append, scan_of_isWordStart _ hstart]
      simp only [scanWord, List.takeWhile_cons, hchar, if_true, hrun.takeWhile_eq]
  | @string quote body _ hquote hbody =>
      have hline : quote ≠ '\n' := by rcases hquote with rfl | rfl <;> decide
      have hscanned : scanString quote (body ++ quote :: rest) =
          .ok ⟨.string, String.ofList body, body.length + 2⟩ :=
        (scanString_eq_ok_iff hline).2 ⟨body, rest, rfl, hbody, rfl⟩
      rw [List.cons_append, scan_of_quote _ hquote, List.append_assoc, List.singleton_append,
        hscanned]
      rfl
  | @whole digits _ hne hrun hfraction =>
      have hscanned := scanNumber_whole hrun hfraction
      obtain ⟨c, more, rfl⟩ := List.exists_cons_of_ne_nil hne
      rw [List.cons_append] at hscanned ⊢
      rw [scan_of_isDigit _ (hrun.all c (by simp)), hscanned]
  | @decimal whole fraction _ hne hwhole hsome hrun =>
      have hscanned := scanNumber_decimal hwhole hsome hrun
      obtain ⟨c, more, rfl⟩ := List.exists_cons_of_ne_nil hne
      rw [List.append_assoc, List.cons_append, List.cons_append]
      rw [List.cons_append] at hscanned
      rw [scan_of_isDigit _ (hwhole c (by simp)), hscanned]
  | fraction hne hrun =>
      rw [List.cons_append, scan_point, scanPoint_fraction hne hrun]
      rfl
  | field hblanks hstart hrun =>
      rw [List.cons_append, List.append_assoc, List.cons_append, scan_point,
        scanPoint_field hblanks hstart hrun]
      rfl

/-- The scanner finds exactly the lexemes that stand at the start of a text. -/
theorem scan_eq_some_iff :
    scan text = .ok (some lexeme) ↔ ∃ body rest, text = body ++ rest ∧ lexeme.Stands body rest := by
  constructor
  · exact stands_of_scan
  · rintro ⟨body, rest, rfl, h⟩
    exact h.scan_eq

end Lexeme

end Scriptlet
