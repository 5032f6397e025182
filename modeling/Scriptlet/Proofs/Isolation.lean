import Mathlib
import Scriptlet.Proofs.Appending
import Scriptlet.Proofs.Nesting
import Scriptlet.Proofs.Relocation
import Scriptlet.Proofs.Sources

/-!
# Expressions by themselves

What an expression is does not depend on where it stands. Its characters alone, between round
brackets and before a semicolon, are read as the same tokens as in the text around it, so they
derive the same tree, as far from the start of the new text as from the start of its slot.
-/

namespace Scriptlet

open Spelling Text

/-- The characters of a text in a span. -/
def Span.chars (span : Span) (text : List Char) : List Char :=
  (text.drop span.offset).take span.length

/-- The span as far from `target` as it was from `origin`. -/
def Span.move (origin target : Nat) (span : Span) : Span :=
  ⟨span.offset - origin + target, span.length⟩

/-- A span behind `origin` and the span as far behind `target`. -/
def Span.Moved (origin target : Nat) (span other : Span) : Prop :=
  origin ≤ span.offset ∧ other = span.move origin target

/-! ## Moved spans -/

section

variable {origin target : Nat} {span other : Span}

theorem Span.Moved.stop_eq (h : span.Moved origin target other) :
    other.stop = span.stop - origin + target := by
  obtain ⟨hle, rfl⟩ := h
  show span.offset - origin + target + span.length = span.offset + span.length - origin + target
  omega

theorem Span.covering_moved (origin target : Nat) : Covering (Span.Moved origin target) where
  between {first first' last last'} hfirst hlast := by
    have hstop := hlast.stop_eq
    obtain ⟨hle, rfl⟩ := hfirst
    refine ⟨hle, ?_⟩
    have hlength : last'.stop - (first.offset - origin + target) = last.stop - first.offset := by
      have hbehind := hlast.1
      have hlast : last.stop = last.offset + last.length := rfl
      omega
    show (⟨_, last'.stop - (first.offset - origin + target)⟩ : Span) = _
    rw [hlength]
    rfl

/-- What is as far behind a later place is as far behind an earlier one. -/
theorem Span.Moved.add {distance : Nat}
    (h : span.Moved (origin + distance) (target + distance) other) :
    span.Moved origin target other := by
  obtain ⟨hle, rfl⟩ := h
  refine ⟨by omega, ?_⟩
  unfold Span.move
  congr 1
  omega

end

/-! ## Tokens before another text -/

section

variable {c : Char} (hmark : (punctuationKind? c).isSome = true)

include hmark

/-- A lexeme stands before some text as before the same text and a punctuation character. -/
theorem Lexeme.Stands.before_mark {lexeme : Lexeme} {body front behind : List Char}
    (h : lexeme.Stands body (front ++ behind)) (more : List Char) :
    lexeme.Stands body (front ++ c :: more) := by
  obtain ⟨hword, hoperator, -⟩ := ends_of_mark hmark
  refine h.before hword ?_ (fun hc => ?_) more
  · rintro rfl
    cases hmark
  · rw [hoperator] at hc
    cases hc

omit hmark in
/-- The characters are read as the tokens wherever they stand before the character `c`: as tokens
as far behind their place as the given ones are behind `origin`. -/
def ReadsAs (c : Char) (inner : List Char) (origin : Nat) (tokens : List Token) : Prop :=
  ∀ more offset stop, ∃ others,
    Reads ⟨⟨offset, inner ++ c :: more⟩, stop⟩ others
      ⟨⟨offset + inner.length, c :: more⟩, offset + inner.length⟩ ∧
    List.Forall₂ (Token.Alike (Span.Moved origin offset)) tokens others

variable {lexeme : Lexeme} {body blanks inner behind : List Char} {origin : Nat}
  {tokens : List Token}

/-- A lexeme is read alone. -/
theorem ReadsAs.single (h : lexeme.Stands body ([] ++ behind)) :
    ReadsAs c body origin [⟨lexeme.kind, lexeme.text, ⟨origin, body.length⟩⟩] := by
  intro more offset stop
  have hstands : lexeme.Stands body ([] ++ c :: more) := Lexeme.Stands.before_mark hmark h more
  have hblanks : IsRun isBlank [] (c :: more) := ⟨by simp, by simpa using (ends_of_mark hmark).2.2⟩
  exact ⟨_, .cons_of_stands hstands hblanks (.nil _),
    .cons ⟨rfl, rfl, Nat.le_refl _, by simp [Span.move]⟩ .nil⟩

/-- A lexeme is read before the blanks behind it and what is read behind these. -/
theorem ReadsAs.cons (h : lexeme.Stands body (blanks ++ inner ++ behind))
    (hblanks : IsRun isBlank blanks (inner ++ behind))
    (hinner : ReadsAs c inner (origin + (body.length + blanks.length)) tokens) :
    ReadsAs c (body ++ (blanks ++ inner)) origin
      (⟨lexeme.kind, lexeme.text, ⟨origin, body.length⟩⟩ :: tokens) := by
  intro more offset stop
  have hstands := h.before_mark hmark more
  rw [List.append_assoc] at hstands
  have hblanks' := hblanks.before (fun _ => (ends_of_mark hmark).2.2) more
  obtain ⟨others, hreads, halike⟩ :=
    hinner more (offset + (body.length + blanks.length)) (offset + body.length)
  rw [← Nat.add_assoc] at hreads
  have hall : Reads ⟨⟨offset, _⟩, stop⟩ _ _ := .cons_of_stands hstands hblanks' hreads
  refine ⟨⟨lexeme.kind, lexeme.text, ⟨offset, body.length⟩⟩ :: others, ?_,
    .cons ⟨rfl, rfl, Nat.le_refl _, by simp [Span.move]⟩
      (halike.imp fun _ _ h => ⟨h.kind, h.text, h.span.add⟩)⟩
  simpa [Nat.add_assoc] using hall

/-- Tokens that are read in a text are read from their characters alone, before a punctuation
character and wherever these stand. -/
theorem Reads.exists_readsAs {here there : Place} (h : Reads here tokens there) (hne : tokens ≠ []) :
    ∃ inner behind, here.cursor.rest = inner ++ behind ∧
      here.cursor.offset + inner.length = stopOf tokens ∧
      ReadsAs c inner here.cursor.offset tokens := by
  induction h with
  | nil => exact absurd rfl hne
  | @cons here token tokens there hnext hrest ih =>
      obtain ⟨lexeme, body, rest, hbody, hstands, rfl, hpast⟩ := hnext.stands
      by_cases hlast : tokens = []
      · subst hlast
        exact ⟨body, rest, hbody, rfl, .single hmark hstands⟩
      · obtain ⟨inner, behind, hinner, hstop, hreads⟩ := ih hlast
        -- The blanks behind the first token belong to the characters of the tokens.
        have hblanks := IsRun.of_text (p := isBlank) rest
        have hsplit : rest.takeWhile isBlank ++ rest.dropWhile isBlank = rest :=
          List.takeWhile_append_dropWhile
        rw [hpast] at hinner hstop hreads
        change rest.dropWhile isBlank = inner ++ behind at hinner
        change here.cursor.offset + body.length + (rest.takeWhile isBlank).length + inner.length =
          stopOf tokens at hstop
        change ReadsAs c inner
          (here.cursor.offset + body.length + (rest.takeWhile isBlank).length) tokens at hreads
        rw [hinner] at hblanks hsplit
        rw [← List.append_assoc] at hsplit
        rw [← hsplit] at hbody hstands
        rw [Nat.add_assoc] at hreads
        refine ⟨body ++ (rest.takeWhile isBlank ++ inner), behind, by simp [hbody], ?_,
          .cons hmark hstands hblanks hreads⟩
        rw [← List.singleton_append, stopOf_append _ hlast, ← hstop]
        simp only [List.length_append]
        omega

end

/-- No blank stands where a token is next. -/
theorem Place.Next.isRun_nil {here : Place} {token : Token} (h : here.Next token) :
    IsRun isBlank [] here.cursor.rest := by
  obtain ⟨lexeme, body, rest, hrest, hstands, -⟩ := h.stands
  have hpos := Nat.lt_of_lt_of_eq (Lexeme.length_pos_of_scan hstands.scan_eq) hstands.length_eq
  obtain ⟨c, more, rfl⟩ := List.exists_cons_of_length_pos hpos
  refine ⟨by simp, ?_⟩
  rw [hrest]
  exact hstands.isBlank_head?

/-- Reading a text starts at its first character if that is no blank. -/
theorem IsRun.start_eq {text : List Char} (h : IsRun isBlank [] text) :
    Place.start text = ⟨⟨0, text⟩, 0⟩ :=
  congrArg (Place.mk · 0) (h.skipBlanks_eq 0)

/-- The tokens of an expression between round brackets, and of the semicolon behind them. -/
def wrapped (tokens : List Token) (length : Nat) : List Token :=
  ⟨.openRound, "(", ⟨0, 1⟩⟩ :: (tokens ++
    [⟨.closeRound, ")", ⟨1 + length, 1⟩⟩, ⟨.semicolon, ";", ⟨1 + length + 1, 1⟩⟩])

/-- Characters that are read as some tokens are read as such between round brackets. -/
theorem ReadsAs.exists_wrapped {inner : List Char} {origin : Nat} {tokens : List Token}
    (h : ReadsAs ')' inner origin tokens) (hne : tokens ≠ []) :
    ∃ others there, Reads (.start ('(' :: (inner ++ [')', ';']))) (wrapped others inner.length)
      there ∧ there.Ended ∧ List.Forall₂ (Token.Alike (Span.Moved origin 1)) tokens others := by
  obtain ⟨others, hreads, halike⟩ := h [';'] 1 1
  have hmark {c : Char} {kind : Kind} (hkind : punctuationKind? c = some kind) (rest : List Char) :
      (Lexeme.spelled kind [c]).Stands [c] ([] ++ rest) := .punctuation hkind
  have hclose : Reads ⟨⟨1 + inner.length, [')', ';']⟩, 1 + inner.length⟩
      [⟨.closeRound, ")", ⟨1 + inner.length, 1⟩⟩, ⟨.semicolon, ";", ⟨1 + inner.length + 1, 1⟩⟩]
      ⟨⟨1 + inner.length + 2, []⟩, 1 + inner.length + 2⟩ :=
    .cons_of_stands (hmark rfl [';']) ⟨by simp, by simp; decide⟩
      (.cons_of_stands (hmark rfl []) ⟨by simp, by simp⟩ (.nil _))
  have hblanks : IsRun isBlank [] (inner ++ [')', ';']) := by
    cases halike with
    | nil => exact absurd rfl hne
    | cons => exact Place.Next.isRun_nil (Reads.cons_iff.1 hreads).1
  have hstart : IsRun isBlank [] ('(' :: (inner ++ [')', ';'])) := ⟨by simp, by simp; decide⟩
  refine ⟨others, ⟨⟨1 + inner.length + 2, []⟩, 1 + inner.length + 2⟩, ?_, Place.ended_iff.2 rfl,
    halike⟩
  rw [hstart.start_eq]
  exact .cons_of_stands (hmark (c := '(') rfl _) hblanks (hreads.append hclose)

/-! ## The expression between round brackets -/

/-- What is derived in some mode is derived alike between round brackets, as a program of its own. -/
theorem Phrases.IsSlot.derives_wrapped {height origin : Nat} {mode : Mode}
    {tokens others : List Token} {slot : Slot} (h : (ofHeight height).IsSlot mode tokens slot)
    (length : Nat) (halike : List.Forall₂ (Token.Alike (Span.Moved origin 1)) tokens others) :
    Derives (height + 2) (wrapped others length)
      [.expression ⟨slot.body.mapSpans (Span.move origin 1), ⟨0, 1 + length + 1⟩⟩] := by
  cases h with
  | intro hexpr =>
      have hmovable := movable_ofHeight (Span.covering_moved origin 1) (Nat.le_refl height)
      obtain ⟨body, hbody, hsame⟩ := hmovable.expr Mode.allowedBy_group hexpr halike
      have hspans := hsame.mapSpans_eq (f := Span.move origin 1) (g := id) fun _ _ h => h.2.symm
      rw [Expr.mapSpans_id] at hspans
      let bracket : Token := ⟨.openRound, "(", ⟨0, 1⟩⟩
      let close : Token := ⟨.closeRound, ")", ⟨1 + length, 1⟩⟩
      let semicolon : Token := ⟨.semicolon, ";", ⟨1 + length + 1, 1⟩⟩
      have hgroup : (ofHeight (height + 1)).IsSlot .plain (bracket :: (others ++ [close]))
          ⟨body, cover (bracket :: (others ++ [close]))⟩ :=
        .intro (IsPrimary.group rfl hbody rfl).isExpression
      have hcover : cover (bracket :: (others ++ [close])) = ⟨0, 1 + length + 1⟩ := by
        simp [cover, Span.between, Span.stop, bracket, close]
      have hsplit : bracket :: (others ++ [close]) ++ [semicolon] = wrapped others length := by
        simp [wrapped, bracket, close, semicolon]
      have hstatement : (ofHeight (height + 1)).IsStatement
          (bracket :: (others ++ [close]) ++ [semicolon]) _ :=
        (IsBody.expression rfl hgroup rfl).isStatement
      rw [hsplit, hcover] at hstatement
      exact hspans ▸ .single hstatement

/-- The tokens that a slot is derived from are read from the characters of the slot. -/
theorem Reads.readsAs_slot {text : List Char} {found part : List Token} {there : Place} {slot : Slot}
    {height : Nat} {mode : Mode} (h : Reads (.start text) found there) (hpart : part <:+: found)
    (hslot : (Phrases.ofHeight height).IsSlot mode part slot) :
    ReadsAs ')' (slot.span.chars text) slot.span.offset part ∧
      (slot.span.chars text).length = slot.span.length := by
  have hne := (hslot.opening (Phrases.opens_ofHeight height)).ne_nil
  obtain ⟨before, after, rfl⟩ := hpart
  obtain ⟨_, h, -⟩ := Reads.append_iff.1 h
  obtain ⟨here, hbefore, hreads⟩ := Reads.append_iff.1 h
  obtain ⟨inner, behind, hrest, hstop, hinner⟩ := hreads.exists_readsAs (c := ')') rfl hne
  obtain ⟨initial, htext, hoffset⟩ := hbefore.in (Cursor.start_in text)
  have hstart := hreads.offset_eq hne
  have hspan : slot.span = ⟨here.cursor.offset, inner.length⟩ := by
    cases hslot with
    | intro =>
        show cover part = _
        rw [cover, ← hstart, ← hstop, Span.between, Nat.add_sub_cancel_left]
  have hchars : slot.span.chars text = inner := by
    rw [hspan, Span.chars, htext, hrest, hoffset, List.drop_left, List.take_left]
  rw [hchars, hspan]
  exact ⟨hinner, rfl⟩

/-- An expression is the same wherever it stands. The characters of a slot of a program, between
round brackets, are parsed as a program of one statement, which holds the expression of the slot as
far from the bracket as it was from the start of the slot; but where the text around the slot leaves
no level for the brackets, the bound on nesting stops the parse. -/
theorem Program.parse_slot {source : String} {program : Program} {slot : Slot}
    (h : Program.parse source = .ok program) (hslot : program.HasNode (.slot slot)) :
    (∃ error, Program.parse ("(" ++ String.ofList (slot.span.chars source.toList) ++ ");") =
        .error error ∧ error.kind = .unsupported ∧
          error.message = (Cause.tooDeep nestingLimit).message) ∨
    Program.parse ("(" ++ String.ofList (slot.span.chars source.toList) ++ ");") =
      .ok ⟨[.expression ⟨slot.body.mapSpans (Span.move slot.span.offset 1),
        ⟨0, slot.span.length + 2⟩⟩], ⟨0, slot.span.length + 3⟩⟩ := by
  obtain ⟨found, hfound, hderives, -⟩ := Program.derives_of_parse h
  obtain ⟨there, hreads, hended⟩ := Reads.start_tokens_eq_ok_iff.1 (tokens_eq_ok_iff.1 hfound)
  obtain ⟨height, mode, part, hpart, hderived⟩ := hderives.node_from hslot
  obtain ⟨hreadsAs, hlength⟩ := hreads.readsAs_slot hpart hderived
  generalize slot.span.chars source.toList = inner at hreadsAs hlength ⊢
  have hne := (hderived.opening (Phrases.opens_ofHeight height)).ne_nil
  obtain ⟨others, finish, hwrapped, hfinish, halike⟩ := hreadsAs.exists_wrapped hne
  have hprogram := hderived.derives_wrapped inner.length halike
  have hchars : ("(" ++ String.ofList inner ++ ");").toList = '(' :: (inner ++ [')', ';']) := by
    simp
  have hrun := parseWithin_eq_ok_iff.2 ⟨_, hwrapped.tokens_eq_ok hfinish, hprogram⟩
  rcases parseWithin_ok_or_tooDeep nestingLimit hrun with
    ⟨stop, hrun⟩ | ⟨failure, stop, hrun, hcause⟩
  · refine .inr (Program.parse_eq_ok_iff_run.2 ⟨?_, stop, ?_⟩) <;> rw [hchars]
    · simp [hlength]
    · rw [hrun, hlength, Nat.add_right_comm, Nat.add_comm]
  · refine .inl ⟨_, Program.parse_eq_error_iff.2 ⟨failure, stop, hchars ▸ hrun, rfl⟩, ?_, ?_⟩
    · show failure.cause.kind = _
      rw [hcause]
      rfl
    · show failure.cause.message = _
      rw [hcause]

set_option maxRecDepth 4000 in
/-- An argument in brackets of its own, which its slot covers and its expression does not. -/
theorem Program.parse_slot_argument :
    ∃ program slot, Program.parse "f(a, (b, c));" = .ok program ∧ program.HasNode (.slot slot) ∧
      slot.span = ⟨5, 6⟩ ∧ slot.body.span = ⟨6, 4⟩ ∧
      ((∃ error, Program.parse
          ("(" ++ String.ofList (slot.span.chars "f(a, (b, c));".toList) ++ ");") = .error error ∧
            error.kind = .unsupported ∧ error.message = (Cause.tooDeep nestingLimit).message) ∨
        Program.parse ("(" ++ String.ofList (slot.span.chars "f(a, (b, c));".toList) ++ ");") =
          .ok ⟨[.expression ⟨slot.body.mapSpans (Span.move slot.span.offset 1),
            ⟨0, slot.span.length + 2⟩⟩], ⟨0, slot.span.length + 3⟩⟩) := by
  let argument : Slot :=
    ⟨.sequence (.name ⟨"b", ⟨6, 1⟩⟩) (.name ⟨"c", ⟨9, 1⟩⟩) ⟨6, 4⟩, ⟨5, 6⟩⟩
  let call : Expr :=
    .call (.name ⟨"f", ⟨0, 1⟩⟩) [⟨.name ⟨"a", ⟨2, 1⟩⟩, ⟨2, 1⟩⟩, argument] ⟨0, 12⟩
  have hprogram : Program.parse "f(a, (b, c));" =
      .ok ⟨[.expression ⟨call, ⟨0, 12⟩⟩], ⟨0, 13⟩⟩ := by cbv
  have hslot : Program.HasNode ⟨[.expression ⟨call, ⟨0, 12⟩⟩], ⟨0, 13⟩⟩ (.slot argument) :=
    .child (((Program.HasNode.top List.mem_cons_self).head rfl).head rfl)
      (.tail _ (.tail _ List.mem_cons_self))
  exact ⟨_, argument, hprogram, hslot, rfl, rfl, Program.parse_slot hprogram hslot⟩

end Scriptlet
