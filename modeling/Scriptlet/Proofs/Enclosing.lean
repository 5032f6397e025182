import Mathlib
import Scriptlet.Proofs.Isolation
import Scriptlet.Proofs.Matching
import Scriptlet.Proofs.Shifting

/-!
# Texts between round brackets

A text with matched brackets is read between round brackets as it is read alone, one character
further on, and these brackets close one another. So a program of one group says of the text in the
group what it derives: `Program.content_of_parse` gives the derivation back.
-/

namespace Scriptlet

open Spelling Text

variable {text : List Char} {found tokens : List Token} {here there : Place} {c : Char}

/-! ## Reading between brackets -/

/-- The token of a punctuation character at an offset. -/
def Token.mark (kind : Kind) (c : Char) (offset : Nat) : Token :=
  ⟨kind, String.ofList [c], ⟨offset, 1⟩⟩

/-- A punctuation character is read wherever it stands. -/
theorem Place.next_mark {kind : Kind} (hkind : punctuationKind? c = some kind) (more : List Char)
    (offset stop : Nat) :
    Place.Next ⟨⟨offset, c :: more⟩, stop⟩ (.mark kind c offset) ∧
      Place.past ⟨⟨offset, c :: more⟩, stop⟩ (.mark kind c offset) =
        ⟨Cursor.skipBlanks ⟨offset + 1, more⟩, offset + 1⟩ := by
  let here : Place := ⟨⟨offset, c :: more⟩, stop⟩
  have hrest : here.cursor.rest = [c] ++ more := rfl
  have hstands : (Lexeme.spelled kind [c]).Stands [c] more := .punctuation hkind
  exact ⟨Place.next_of_stands hrest hstands, Place.past_eq hrest kind (String.ofList [c])⟩

/-- A run ends before a character that does not go on with it. -/
theorem IsRun.of_stop {p : Char → Bool} {run : List Char} (hrun : ∀ d ∈ run, p d = true)
    (hc : p c = false) (rest : List Char) : IsRun p run (c :: rest) :=
  ⟨hrun, by simpa using hc⟩

/-- Blanks are skipped up to a character that is none. -/
theorem Cursor.skipBlanks_cons (hc : isBlank c = false) (offset : Nat) (more : List Char) :
    Cursor.skipBlanks ⟨offset, c :: more⟩ = ⟨offset, c :: more⟩ := by
  have hrun : IsRun isBlank [] (c :: more) := .of_stop (List.forall_mem_nil _) hc more
  simpa using hrun.skipBlanks_eq offset

/-- Behind a bracket a text is read as alone, one character further on. -/
theorem Reads.start_bracket (h : Reads (.start text) tokens there) (hne : tokens ≠ []) :
    Reads (.start ('(' :: text)) (.mark .openRound '(' 0 :: tokens.map (Token.shift 1))
      (there.shift 1) := by
  have hstart : Place.start ('(' :: text) = ⟨⟨0, '(' :: text⟩, 0⟩ :=
    congrArg (Place.mk · 0) (Cursor.skipBlanks_cons rfl 0 text)
  obtain ⟨hnext, hpast⟩ := Place.next_mark (c := '(') rfl text 0 0
  rw [hstart]
  refine .cons hnext ((h.shift 1).of_cursor_eq (by simpa using hne) ?_)
  rw [hpast]
  exact Cursor.skipBlanks_shift ⟨0, text⟩ 1

/-- The tokens of a text of so many characters between round brackets. -/
def grouped (found : List Token) (length : Nat) : List Token :=
  .mark .openRound '(' 0 :: (found.map (Token.shift 1) ++ [.mark .closeRound ')' (length + 1)])

theorem cover_grouped (found : List Token) (length : Nat) :
    cover (grouped found length) = ⟨0, length + 2⟩ := by
  simp [grouped, cover, Token.mark, Span.between, Span.stop]

/-- Between brackets a text is read as alone, one character further on. -/
theorem Reads.start_grouped (h : Reads (.start text) found there) (hended : there.Ended)
    (more : List Char) :
    Reads (.start ('(' :: (text ++ ')' :: more))) (grouped found text.length)
      ⟨Cursor.skipBlanks ⟨text.length + 2, more⟩, text.length + 2⟩ := by
  have hinner := h.start_before (c := ')') hended rfl (by decide) (fun hno => by cases hno) more
  rw [Cursor.skipBlanks_cons rfl] at hinner
  obtain ⟨hnext, hpast⟩ := Place.next_mark (c := ')') rfl more text.length there.lastStop
  have hall := (hinner.append (.single hnext)).start_bracket (by simp)
  rw [hpast, List.map_append] at hall
  have hplace : Place.shift 1 ⟨Cursor.skipBlanks ⟨text.length + 1, more⟩, text.length + 1⟩ =
      ⟨Cursor.skipBlanks ⟨text.length + 2, more⟩, text.length + 2⟩ :=
    congrArg (Place.mk · _) (Cursor.skipBlanks_shift ⟨text.length + 1, more⟩ 1).symm
  rw [hplace] at hall
  exact hall

/-- Between brackets and before a semicolon a text is read as alone, one character further on. -/
theorem Reads.start_statement (h : Reads (.start text) found there) (hended : there.Ended) :
    Reads (.start ('(' :: (text ++ [')', ';'])))
      (grouped found text.length ++ [.mark .semicolon ';' (text.length + 2)])
      ⟨⟨text.length + 3, []⟩, text.length + 3⟩ := by
  obtain ⟨hnext, hpast⟩ := Place.next_mark (c := ';') rfl [] (text.length + 2) (text.length + 2)
  have hgrouped := h.start_grouped hended [';']
  rw [Cursor.skipBlanks_cons rfl] at hgrouped
  have hall := hgrouped.append (.single hnext)
  rwa [hpast] at hall

/-! ## Matched brackets -/

/-- The brackets of a text are matched when it is read by itself. -/
def BracketsMatched (text : String) : Prop :=
  ∃ found, Scriptlet.tokens text = .ok found ∧ Matched found

/-- Further on the same kinds of tokens stand. -/
theorem map_kind_shift (tokens : List Token) (distance : Nat) :
    (tokens.map (Token.shift distance)).map (·.kind) = tokens.map (·.kind) := by
  rw [List.map_map]
  rfl

theorem Matched.enclosed_grouped (h : Matched found) (length : Nat) :
    Enclosed (grouped found length) :=
  .intro rfl (h.of_kinds (map_kind_shift found 1))

/-! ## What a group holds -/

/-- A series of no tokens has no items, where every item has tokens. -/
theorem Phrases.Series.eq_nil {α : Type} {item : List Token → α → Prop} {values : List α}
    (hitem : ∀ {tokens value}, item tokens value → tokens ≠ []) (h : Series item [] values) :
    values = [] := by
  generalize hnil : ([] : List Token) = tokens at h
  cases h with
  | nil => rfl
  | cons hvalue => exact absurd (List.append_eq_nil_iff.1 hnil.symm).1 (hitem hvalue)

/-- Tokens in brackets and a semicolon derive one expression, of which they are the first part and
the last. -/
theorem Derives.primary_of_enclosed (height : Nat) {semicolon : Token}
    {statements : List Statement} (h : Derives (height + 2) (tokens ++ [semicolon]) statements)
    (henclosed : Enclosed tokens) :
    ∃ slot, statements = [.expression slot] ∧
      (Phrases.ofHeight height).IsPrimary tokens slot.body := by
  have hkeyword {keyword : Token} {rest : List Token}
      (hall : tokens ++ [semicolon] = keyword :: rest) : keyword.kind ≠ .word := by
    cases henclosed with
    | intro hbracket =>
        obtain ⟨rfl, -⟩ := List.cons.inj hall
        intro hkind
        rw [hkind] at hbracket
        cases hbracket
  unfold Derives at h
  generalize hall : tokens ++ [semicolon] = all at h
  obtain _ | ⟨⟨hbody, hsemicolons⟩, hseries⟩ := h
  · simp at hall
  cases hbody with
  | declaration hword | initialized hword | function hword => exact absurd hword (hkeyword hall)
  | @expression inner slot last _ hslot hlast =>
      -- The expression reaches as far as the bracket that closes the first one, and no further.
      rw [List.append_assoc, List.append_assoc] at hall
      obtain ⟨behind, rfl, hend, -⟩ := henclosed.exists_of_append
        (hslot.matched (Phrases.matches_ofHeight _))
        (hslot.opening (Phrases.opens_ofHeight _)).ne_nil hall.symm
      obtain rfl : behind = [] := by
        cases behind with
        | nil => rfl
        | cons _ behind => simp at hend
      obtain ⟨rfl, hrest⟩ := List.cons.inj hend
      obtain ⟨-, hrest⟩ := List.append_eq_nil_iff.1 hrest.symm
      obtain ⟨-, rfl⟩ := List.append_eq_nil_iff.1 hrest
      obtain rfl := hseries.eq_nil fun h => (Phrases.IsStatement.opening h
        (Phrases.opens_ofHeight _)).ne_nil
      rw [List.append_nil] at hslot
      cases hslot with
      | intro hexpr =>
          exact ⟨_, rfl, Phrases.IsExpression.primary_of_enclosed (Phrases.matches_ofHeight height)
            hexpr henclosed⟩

/-- A program of one group is one expression, which the tokens of the text in the group derive. -/
theorem Program.content_of_parse {text : String} {program : Program}
    (hreads : Reads (.start text.toList) found there) (hended : there.Ended)
    (hmatched : Matched found) (h : Program.parse ("(" ++ text ++ ");") = .ok program) :
    ∃ slot, program.statements = [.expression slot] ∧
      (Phrases.ofHeight (nestingLimit - 2)).expr .group (found.map (Token.shift 1)) slot.body := by
  obtain ⟨all, hall, hderives, -⟩ := Program.derives_of_parse h
  have hchars : ("(" ++ text ++ ");").toList = '(' :: (text.toList ++ [')', ';']) := by simp
  rw [tokens_eq_ok_iff, hchars] at hall
  have hwhole := (hreads.start_statement hended).tokens_eq_ok (Place.ended_iff.2 rfl)
  obtain rfl : _ = all := Except.ok.inj (hwhole.symm.trans hall)
  obtain ⟨slot, hslot, hprimary⟩ := Derives.primary_of_enclosed (nestingLimit - 2)
    hderives (hmatched.enclosed_grouped _)
  exact ⟨slot, hslot, hprimary.content_of_round rfl⟩

/-- What a program of one group holds is derived from the tokens of the text in the group. -/
theorem Program.exists_content {text : String} {slot : Slot} {span : Span}
    (h : Program.parse ("(" ++ text ++ ");") = .ok ⟨[.expression slot], span⟩)
    (hfound : Scriptlet.tokens text = .ok found) (hmatched : Matched found) :
    ∃ there, Reads (.start text.toList) found there ∧ there.Ended ∧
      (Phrases.ofHeight (nestingLimit - 2)).expr .group (found.map (Token.shift 1)) slot.body := by
  obtain ⟨there, hreads, hended⟩ := Reads.start_tokens_eq_ok_iff.1 (tokens_eq_ok_iff.1 hfound)
  obtain ⟨slot, hslot, hcontent⟩ := Program.content_of_parse hreads hended hmatched h
  cases hslot
  exact ⟨there, hreads, hended, hcontent⟩

/-! ## Object literals alone -/

/-- The text is one pair of curly brackets, which close one another. -/
def Braced (text : String) : Prop :=
  ∃ brace inner close, Scriptlet.tokens text = .ok (brace :: (inner ++ [close])) ∧
    brace.kind = .openCurly ∧ close.kind = .closeCurly ∧ Matched inner

/-- A program of one pair of curly brackets is an object literal that its tokens derive. -/
theorem Program.exists_literal {text : String} {slot : Slot} {span : Span}
    (h : Program.parse (text ++ ";") = .ok ⟨[.expression slot], span⟩) (htext : Braced text) :
    ∃ found there, Reads (.start text.toList) found there ∧ there.Ended ∧ EndsStatement found ∧
      (Phrases.ofHeight (nestingLimit - 2)).IsObject found slot.body := by
  obtain ⟨brace, inner, close, hfound, hbrace, hclose, hmatched⟩ := htext
  obtain ⟨there, hreads, hended⟩ := Reads.start_tokens_eq_ok_iff.1 (tokens_eq_ok_iff.1 hfound)
  obtain ⟨all, hall, hderives, -⟩ := Program.derives_of_parse h
  have hends : EndsStatement (brace :: (inner ++ [close])) :=
    .concat (brace :: inner) (.inr hclose)
  rw [tokens_eq_ok_iff, String.toList_append] at hall
  obtain ⟨hnext, hpast⟩ := Place.next_mark (c := ';') rfl [] text.toList.length there.lastStop
  have hliteral := hreads.start_append hended hends [';']
  rw [Cursor.skipBlanks_cons rfl] at hliteral
  have hwhole := hliteral.append (.single hnext)
  rw [hpast] at hwhole
  obtain rfl : _ = all :=
    Except.ok.inj ((hwhole.tokens_eq_ok (Place.ended_iff.2 rfl)).symm.trans hall)
  obtain ⟨slot, hslot, hprimary⟩ := Derives.primary_of_enclosed (nestingLimit - 2)
    hderives (.intro (by rw [hbrace, hclose]; rfl) hmatched)
  cases hslot
  exact ⟨_, there, hreads, hended, hends, hprimary.object_of_curly hbrace⟩

end Scriptlet
