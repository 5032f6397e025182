import Scriptlet.Proofs.Lexemes
import Scriptlet.Proofs.Reading

/-!
# Where places lie in a text

A place that reading a text comes to splits the text: its offset counts the characters before it,
and the rest stands behind them. So reading goes on in the text and ends at its last character.
-/

namespace Scriptlet

open Text

variable {text : List Char} {here there : Place} {token : Token} {tokens : List Token}

/-- The text goes on at a cursor with the rest of the cursor. -/
def Cursor.In (cursor : Cursor) (text : List Char) : Prop :=
  ∃ before, text = before ++ cursor.rest ∧ cursor.offset = before.length

/-- A cursor of a text holds nothing that its offset does not say. -/
theorem Cursor.In.eq_ofOffset {cursor : Cursor} (h : cursor.In text) :
    cursor = .ofOffset text cursor.offset := by
  obtain ⟨before, rfl, hoffset⟩ := h
  obtain ⟨offset, rest⟩ := cursor
  obtain rfl : offset = before.length := hoffset
  simp [Cursor.ofOffset]

/-- The offsets up to the end of a text are places in it. -/
theorem Cursor.ofOffset_in {offset : Nat} (h : offset ≤ text.length) :
    (Cursor.ofOffset text offset).In text :=
  ⟨text.take offset, (List.take_append_drop offset text).symm, (List.length_take_of_le h).symm⟩

/-- Skipping blanks stays in the text. -/
theorem Cursor.In.skipBlanks {cursor : Cursor} (h : cursor.In text) :
    cursor.skipBlanks.In text := by
  obtain ⟨before, htext, hoffset⟩ := h
  refine ⟨before ++ cursor.rest.takeWhile isBlank, ?_, ?_⟩
  · show text = before ++ cursor.rest.takeWhile isBlank ++ cursor.rest.dropWhile isBlank
    rw [List.append_assoc, List.takeWhile_append_dropWhile, htext]
  · show cursor.offset + leadingBlanks cursor.rest = _
    rw [List.length_append, hoffset]
    rfl

/-- Skipping blanks leads behind a run of blanks. -/
theorem IsRun.skipBlanks_eq {blanks rest : List Char} (h : IsRun isBlank blanks rest)
    (offset : Nat) :
    Cursor.skipBlanks ⟨offset, blanks ++ rest⟩ = ⟨offset + blanks.length, rest⟩ := by
  simp only [Cursor.skipBlanks, leadingBlanks, dropBlanks, h.takeWhile_eq, h.dropWhile_eq]

/-- Reading starts in the text. -/
theorem Cursor.start_in (text : List Char) : (Cursor.start text).In text :=
  Cursor.In.skipBlanks ⟨[], rfl, rfl⟩

/-- Reading goes on behind the characters of a token. -/
theorem Place.past_eq {body rest : List Char} (hrest : here.cursor.rest = body ++ rest)
    (kind : Kind) (word : String) :
    here.past ⟨kind, word, ⟨here.cursor.offset, body.length⟩⟩ =
      ⟨Cursor.skipBlanks ⟨here.cursor.offset + body.length, rest⟩,
        here.cursor.offset + body.length⟩ := by
  simp only [Place.past, Cursor.past, Span.stop, hrest, List.drop_left]

/-- A token is a lexeme that stands at its place; reading goes on behind it. -/
theorem Place.Next.stands (h : here.Next token) :
    ∃ lexeme body rest, here.cursor.rest = body ++ rest ∧ Lexeme.Stands lexeme body rest ∧
      token = ⟨lexeme.kind, lexeme.text, ⟨here.cursor.offset, body.length⟩⟩ ∧
      here.past token = ⟨Cursor.skipBlanks ⟨here.cursor.offset + body.length, rest⟩,
        here.cursor.offset + body.length⟩ := by
  unfold Place.Next Cursor.peek at h
  split at h
  · next lexeme hscan =>
    obtain ⟨body, rest, hrest, hstands⟩ := Lexeme.scan_eq_some_iff.1 hscan
    cases h
    refine ⟨lexeme, body, rest, hrest, hstands, by rw [hstands.length_eq], ?_⟩
    rw [hstands.length_eq]
    exact Place.past_eq hrest lexeme.kind lexeme.text
  · cases h
  · cases h

/-- Where a lexeme stands, its token is next. -/
theorem Place.next_of_stands {lexeme : Lexeme} {body rest : List Char}
    (hrest : here.cursor.rest = body ++ rest) (h : lexeme.Stands body rest) :
    here.Next ⟨lexeme.kind, lexeme.text, ⟨here.cursor.offset, body.length⟩⟩ := by
  unfold Place.Next Cursor.peek
  rw [hrest, h.scan_eq, ← h.length_eq]

/-- Where a lexeme stands, it is read first, and reading goes on behind the blanks after it. -/
theorem Reads.cons_of_stands {lexeme : Lexeme} {body blanks rest : List Char} {offset stop : Nat}
    (h : lexeme.Stands body (blanks ++ rest)) (hblanks : IsRun isBlank blanks rest)
    (hrest : Reads ⟨⟨offset + body.length + blanks.length, rest⟩, offset + body.length⟩ tokens
      there) :
    Reads ⟨⟨offset, body ++ (blanks ++ rest)⟩, stop⟩
      (⟨lexeme.kind, lexeme.text, ⟨offset, body.length⟩⟩ :: tokens) there := by
  let here : Place := ⟨⟨offset, body ++ (blanks ++ rest)⟩, stop⟩
  have hbody : here.cursor.rest = body ++ (blanks ++ rest) := rfl
  have hpast := Place.past_eq hbody lexeme.kind lexeme.text
  rw [hblanks.skipBlanks_eq] at hpast
  exact .cons (Place.next_of_stands hbody h) (hpast ▸ hrest)

/-- Behind a token of a text the text goes on. -/
theorem Place.Next.in (h : here.Next token) (hin : here.cursor.In text) :
    (here.past token).cursor.In text := by
  obtain ⟨lexeme, body, rest, hrest, -, -, hpast⟩ := h.stands
  obtain ⟨before, htext, hoffset⟩ := hin
  rw [hpast]
  refine Cursor.In.skipBlanks ⟨before ++ body, ?_, ?_⟩
  · rw [List.append_assoc, ← hrest, htext]
  · rw [List.length_append, hoffset]

/-- Reading in a text stays in it. -/
theorem Reads.in (h : Reads here tokens there) (hin : here.cursor.In text) :
    there.cursor.In text := by
  induction h with
  | nil => exact hin
  | cons hnext _ ih => exact ih (hnext.in hin)

/-- Reading never goes back. -/
theorem Reads.offset_le (h : Reads here tokens there) :
    here.cursor.offset ≤ there.cursor.offset := by
  induction h with
  | nil => exact Nat.le_refl _
  | @cons here token _ _ hnext _ ih =>
      refine Nat.le_trans ?_ ih
      show here.cursor.offset ≤ token.span.stop + leadingBlanks _
      have hoffset := hnext.offset_eq
      unfold Span.stop
      omega

/-- The last token that was taken stops before the cursor. -/
theorem Reads.lastStop_le (h : Reads here tokens there)
    (hle : here.lastStop ≤ here.cursor.offset) : there.lastStop ≤ there.cursor.offset := by
  induction h with
  | nil => exact hle
  | @cons here token _ _ _ _ ih =>
      refine ih ?_
      show token.span.stop ≤ token.span.stop + leadingBlanks _
      omega

/-- A text ends at the offset that counts its characters. -/
theorem Place.Ended.offset_eq (h : here.Ended) (hin : here.cursor.In text) :
    here.cursor.offset = text.length := by
  obtain ⟨before, htext, hoffset⟩ := hin
  rw [Place.ended_iff.1 h, List.append_nil] at htext
  rw [hoffset, htext]

end Scriptlet
