import Mathlib
import Scriptlet.Proofs.Isolation
import Scriptlet.Proofs.Splitting

/-!
# Round brackets around an expression

What a slot covers besides its expression are redundant brackets. A group is what it holds, so the
span of an expression leaves out the round brackets around all of it, while an access, a call or a
comma behind a group takes its bracket in. The characters of a slot before its expression and behind
it are therefore blanks and round brackets, as many on each side.
-/

namespace Scriptlet

open Spelling Text

variable {text : List Char} {here there : Place} {token : Token} {tokens : List Token} {c : Char}

/-! ## Characters between places -/

/-- The characters are blanks but for so many times `c`. -/
structure HoldsOnly (c : Char) (count : Nat) (chars : List Char) : Prop where
  each : ∀ d ∈ chars, isBlank d = true ∨ d = c
  count_eq : chars.count c = count

namespace HoldsOnly

variable {count : Nat} {chars : List Char}

theorem nil (c : Char) : HoldsOnly c 0 [] :=
  ⟨by simp, rfl⟩

theorem single (c : Char) : HoldsOnly c 1 [c] :=
  ⟨by simp, by simp⟩

theorem of_blanks (hc : isBlank c = false) (h : ∀ d ∈ chars, isBlank d = true) :
    HoldsOnly c 0 chars := by
  refine ⟨fun d hd => .inl (h d hd), List.count_eq_zero.2 fun hmem => ?_⟩
  exact Bool.false_ne_true (hc.symm.trans (h c hmem))

theorem append {count' : Nat} {chars' : List Char} (h : HoldsOnly c count chars)
    (h' : HoldsOnly c count' chars') : HoldsOnly c (count + count') (chars ++ chars') :=
  ⟨List.forall_mem_append.2 ⟨h.each, h'.each⟩, by rw [List.count_append, h.count_eq, h'.count_eq]⟩

end HoldsOnly

@[simp] theorem Span.chars_between_self (offset : Nat) (text : List Char) :
    (Span.between offset offset).chars text = [] := by
  simp [Span.chars, Span.between]

/-- The characters up to an offset and those from there on. -/
theorem Span.chars_between_append {first middle last : Nat} (hfirst : first ≤ middle)
    (hlast : middle ≤ last) (text : List Char) :
    (Span.between first middle).chars text ++ (Span.between middle last).chars text =
      (Span.between first last).chars text := by
  simp only [Span.chars, Span.between]
  have hlength : last - first = (middle - first) + (last - middle) := by omega
  have hdrop : text.drop middle = (text.drop first).drop (middle - first) := by
    rw [List.drop_drop, Nat.add_sub_cancel' hfirst]
  rw [hlength, List.take_add, hdrop]

/-- The characters from a cursor of a text on are those of its rest. -/
theorem Cursor.In.chars_eq {cursor : Cursor} {body rest : List Char} (h : cursor.In text)
    (hrest : cursor.rest = body ++ rest) :
    (Span.mk cursor.offset body.length).chars text = body := by
  obtain ⟨before, htext, hoffset⟩ := h
  rw [Span.chars, htext, hrest, hoffset, List.drop_left, List.take_left]

/-- A place of a text, with nothing but blanks behind the last token. -/
structure Place.Of (text : List Char) (here : Place) : Prop where
  cursor : here.cursor.In text
  lastStop_le : here.lastStop ≤ here.cursor.offset
  blanks : ∀ d ∈ (Span.between here.lastStop here.cursor.offset).chars text, isBlank d = true

/-- Where blanks are skipped behind the last token is a place of the text. -/
theorem Place.of_skipBlanks {cursor : Cursor} (h : cursor.In text) :
    Place.Of text ⟨cursor.skipBlanks, cursor.offset⟩ where
  cursor := h.skipBlanks
  lastStop_le := Nat.le_add_right _ _
  blanks := by
    have hchars := h.chars_eq (List.takeWhile_append_dropWhile (p := isBlank)).symm
    have hspan : Span.between cursor.offset cursor.skipBlanks.offset =
        ⟨cursor.offset, (cursor.rest.takeWhile isBlank).length⟩ := by
      simp [Span.between, Cursor.skipBlanks, leadingBlanks]
    rw [hspan, hchars]
    exact fun d hd => List.mem_takeWhile_imp hd

theorem Place.start_of (text : List Char) : (Place.start text).Of text :=
  Place.of_skipBlanks (show (Cursor.ofOffset text 0).In text from
    Cursor.ofOffset_in (Nat.zero_le _))

/-- Behind a token of a text stand blanks up to where reading goes on. -/
theorem Place.Of.past (hof : here.Of text) (h : here.Next token) : (here.past token).Of text := by
  obtain ⟨lexeme, body, rest, hrest, -, -, hpast⟩ := h.stands
  obtain ⟨before, htext, hoffset⟩ := hof.cursor
  rw [hpast]
  have hin : Cursor.In ⟨here.cursor.offset + body.length, rest⟩ text := by
    refine ⟨before ++ body, ?_, ?_⟩
    · rw [List.append_assoc, ← hrest, htext]
    · rw [List.length_append, hoffset]
  exact Place.of_skipBlanks hin

theorem Reads.of (h : Reads here tokens there) (hof : here.Of text) : there.Of text := by
  induction h with
  | nil => exact hof
  | cons hnext _ ih => exact ih (hof.past hnext)

/-- A lexeme of the kind of a punctuation character is that character. -/
theorem Lexeme.Stands.eq_of_mark {lexeme : Lexeme} {body rest : List Char}
    (h : lexeme.Stands body rest) (hkind : punctuationKind? c = some lexeme.kind) : body = [c] := by
  have hmem := mem_punctuation hkind
  have hword : ∀ entry ∈ Spelling.punctuation,
      entry.2 ≠ .word ∧ entry.2 ≠ .string ∧ entry.2 ≠ .number ∧ entry.2 ≠ .field := by decide
  have hno := hword _ hmem
  cases h with
  | @punctuation d kind _ hother =>
      have hunique : ∀ first ∈ Spelling.punctuation, ∀ second ∈ Spelling.punctuation,
          first.2 = second.2 → first.1 = second.1 := by decide
      exact congrArg (fun c => [c]) (hunique _ (mem_punctuation hother) _ hmem rfl)
  | operator _ _ hoperator =>
      have hapart : ∀ first ∈ Spelling.punctuation, ∀ second ∈ operators,
          first.2 ≠ second.2 := by decide
      exact absurd rfl (hapart _ hmem _ (operatorKind?_eq_some_iff.1 hoperator))
  | word => exact absurd rfl hno.1
  | string => exact absurd rfl hno.2.1
  | whole | decimal | fraction => exact absurd rfl hno.2.2.1
  | field => exact absurd rfl hno.2.2.2

/-- The characters of a token that is a punctuation character. -/
theorem Place.Next.chars_eq (h : here.Next token) (hin : here.cursor.In text)
    (hkind : punctuationKind? c = some token.kind) : token.span.chars text = [c] := by
  obtain ⟨lexeme, body, rest, hrest, hstands, rfl, -⟩ := h.stands
  exact (hin.chars_eq hrest).trans (hstands.eq_of_mark hkind)

/-- Between the places before and behind some tokens that are all the same punctuation character
stand blanks and these characters, and so between the ends of the tokens before and of these. -/
theorem Reads.holdsOnly (h : Reads here tokens there) (hof : here.Of text)
    (hkinds : ∀ token ∈ tokens, punctuationKind? c = some token.kind) :
    HoldsOnly c tokens.length
        ((Span.between here.cursor.offset there.cursor.offset).chars text) ∧
      HoldsOnly c tokens.length ((Span.between here.lastStop there.lastStop).chars text) := by
  induction h with
  | nil here => simp [HoldsOnly.nil]
  | @cons here token tokens there hnext hrest ih =>
      obtain ⟨hkind, hkinds⟩ := List.forall_mem_cons.1 hkinds
      have hpast := hof.past hnext
      have hafter := hrest.of hpast
      obtain ⟨hcursors, hstops⟩ := ih hpast hkinds
      have hc := (ends_of_mark (by rw [hkind]; rfl : (punctuationKind? c).isSome = true)).2.2
      have hoffset := hnext.offset_eq
      have hspan : Span.between here.cursor.offset (here.past token).lastStop = token.span := by
        rw [← hoffset]
        show Span.between token.span.offset (token.span.offset + token.span.length) = token.span
        rw [Span.between, Nat.add_sub_cancel_left]
      have htoken := hnext.chars_eq hof.cursor hkind
      have hle : here.cursor.offset ≤ (here.past token).lastStop := by
        show here.cursor.offset ≤ token.span.offset + token.span.length
        omega
      have hstopsLe : (here.past token).lastStop ≤ there.lastStop := by
        by_cases hnil : tokens = []
        · subst hnil
          rw [Reads.nil_iff.1 hrest]
        · rw [hrest.lastStop_eq hnil]
          have hordered := (Reads.cons hnext hrest).ordered.1
          have hstop := hordered.le_stopOf List.mem_cons_self
          rwa [← List.singleton_append, stopOf_append _ hnil] at hstop
      constructor
      · -- The token, the blanks behind it, and the other tokens.
        rw [← Span.chars_between_append (hle.trans hpast.lastStop_le) hrest.offset_le,
          ← Span.chars_between_append hle hpast.lastStop_le, hspan, htoken, List.length_cons,
          Nat.add_comm]
        exact ((HoldsOnly.single c).append (.of_blanks hc hpast.blanks)).append hcursors
      · -- The blanks before the token, the token, and what is up to the end of the others.
        rw [← Span.chars_between_append (hof.lastStop_le.trans hle) hstopsLe,
          ← Span.chars_between_append hof.lastStop_le hle, hspan, htoken, List.length_cons,
          Nat.add_comm]
        have hblanks : HoldsOnly c 0 _ := .of_blanks hc hof.blanks
        simpa using (hblanks.append (.single c)).append hstops

/-! ## The tokens around an expression -/

namespace Phrases

/-- The tokens are those that the span of an expression covers, and round brackets around them. -/
inductive Bracketed : List Token → Expr → Prop where
  | bare {tokens expr} : tokens ≠ [] → expr.span = cover tokens → Bracketed tokens expr
  | round {bracket tokens expr close} :
      bracket.kind = .openRound → Bracketed tokens expr → close.kind = .closeRound →
      Bracketed (bracket :: (tokens ++ [close])) expr

/-- The brackets on each side, as many before as behind. -/
theorem Bracketed.split {expr : Expr} (h : Bracketed tokens expr) :
    ∃ opens inner closes, tokens = opens ++ (inner ++ closes) ∧
      opens.length = closes.length ∧ (∀ token ∈ opens, token.kind = .openRound) ∧
      (∀ token ∈ closes, token.kind = .closeRound) ∧ inner ≠ [] ∧ expr.span = cover inner := by
  induction h with
  | @bare tokens expr hne hspan =>
      exact ⟨[], tokens, [], by simp, rfl, by simp, by simp, hne, hspan⟩
  | @round bracket tokens expr close hbracket _ hclose ih =>
      obtain ⟨opens, inner, closes, rfl, hlength, hopens, hcloses, hne, hspan⟩ := ih
      exact ⟨bracket :: opens, inner, closes ++ [close], by simp, by simp [hlength],
        List.forall_mem_cons.2 ⟨hbracket, hopens⟩,
        List.forall_mem_append.2 ⟨hcloses, List.forall_mem_singleton.2 hclose⟩, hne, hspan⟩

variable {below : Phrases} {mode : Mode} {start : Nat} {node expr : Expr}

/-- The end of an expression leaves it as it was, or makes it reach from the start to the last
token. -/
theorem IsEnd.span_cases (h : below.IsEnd mode start node tokens expr) (hbelow : below.Opens) :
    tokens = [] ∧ expr = node ∨ tokens ≠ [] ∧ expr.span = .between start (stopOf tokens) := by
  cases h with
  | stop => exact .inl ⟨rfl, rfl⟩
  | @comma comma tokens right _ _ hright =>
      refine .inr ⟨by simp, ?_⟩
      rw [← List.singleton_append, stopOf_append _ (hbelow.expr hright).ne_nil]
      rfl

/-- A link makes an expression reach from the start to the last token of the link. -/
theorem IsLink.span_eq {next : Expr} (h : below.IsLink start node tokens next) :
    next.span = .between start (stopOf tokens) := by
  cases h with
  | field => rfl
  | index => simp [Expr.span]
  | call _ harguments =>
      rw [← List.singleton_append, stopOf_append _ harguments.ne_nil]
      rfl

/-- The tail of an expression leaves it as it was, or makes it reach from the start to the last
token. -/
theorem IsTail.span_cases (h : below.IsTail mode start node tokens expr) (hbelow : below.Opens) :
    tokens = [] ∧ expr = node ∨ tokens ≠ [] ∧ expr.span = .between start (stopOf tokens) := by
  -- Behind the first link the tail leaves an expression that reaches from the start already.
  have hextend {taken rest : List Token} {next expr : Expr} (hne : taken ≠ [])
      (hnext : next.span = .between start (stopOf taken))
      (hrest : rest = [] ∧ expr = next ∨ rest ≠ [] ∧ expr.span = .between start (stopOf rest)) :
      taken ++ rest ≠ [] ∧ expr.span = .between start (stopOf (taken ++ rest)) := by
    refine ⟨by simp [hne], ?_⟩
    rcases hrest with ⟨rfl, rfl⟩ | ⟨hrest, hspan⟩
    · rw [List.append_nil, hnext]
    · rw [stopOf_append _ hrest, hspan]
  induction h with
  | done hend => exact hend.span_cases hbelow
  | link hlink _ ih => exact .inr (hextend hlink.ne_nil hlink.span_eq ih)
  | @fallback name assign tokens source more expr _ _ hsource hend =>
      have hstop : stopOf (assign :: tokens) = stopOf tokens :=
        stopOf_append [assign] (hsource.opening hbelow).ne_nil
      exact .inr (hextend (List.cons_ne_nil assign tokens) (hstop ▸ rfl) (hend.span_cases hbelow))

/-- The first part of an expression has no brackets in its span that stand around all of it. -/
theorem IsPrimary.bracketed (h : below.IsPrimary tokens node)
    (hbelow : ∀ {tokens expr}, below.expr .group tokens expr → Bracketed tokens expr) :
    Bracketed tokens node := by
  cases h with
  | name | string | number => exact .bare (by simp) (by simp [Expr.span])
  | group hbracket hcontent hclose => exact .round hbracket (hbelow hcontent) hclose
  | object hobject =>
      cases hobject with
      | intro => exact .bare (by simp) rfl

/-- An expression covers its tokens but for round brackets around all of them. -/
theorem IsExpression.bracketed (h : below.IsExpression mode tokens expr) (hopens : below.Opens)
    (hbelow : ∀ {tokens expr}, below.expr .group tokens expr → Bracketed tokens expr) :
    Bracketed tokens expr := by
  have hcover {front rest : List Token} {span : Span} (hfront : front ≠ []) (hrest : rest ≠ [])
      (hspan : span = .between (startOf front) (stopOf rest)) : span = cover (front ++ rest) := by
    rw [hspan, cover_append hfront hrest]
  have hne := h.opening.ne_nil
  cases h with
  | chain hprimary htail =>
      rcases htail.span_cases hopens with ⟨rfl, rfl⟩ | ⟨hrest, hspan⟩
      · rw [List.append_nil]
        exact hprimary.bracketed hbelow
      · exact .bare hne (hcover hprimary.opening.ne_nil hrest hspan)
  | @unpacking tokens literal target assign more source rest expr hobject _ _ hsource hend =>
      have hfront := hobject.opening.ne_nil
      have hmore := (hsource.opening hopens).ne_nil
      refine .bare hne (hcover hfront (by simp) ?_)
      rw [← List.singleton_append]
      rcases hend.span_cases hopens with ⟨rfl, rfl⟩ | ⟨hrest, hspan⟩
      · rw [List.append_nil, stopOf_append _ hmore]
        rfl
      · rw [← List.append_assoc, stopOf_append _ hrest, hspan]
  | @arrow tokens parameters arrow more body hparameters _ _ hbody =>
      have hmore := (hbody.opening hopens).ne_nil
      refine .bare hne (hcover hparameters.opening.ne_nil (by simp) ?_)
      rw [← List.singleton_append, stopOf_append _ hmore]
      rfl
  | @arrowBlock tokens parameters arrow more statements rest expr hparameters _ hblock htail =>
      refine .bare hne (hcover hparameters.opening.ne_nil (by simp) ?_)
      rw [← List.singleton_append]
      rcases htail.span_cases hopens with ⟨rfl, rfl⟩ | ⟨hrest, hspan⟩
      · rw [List.append_nil, stopOf_append _ hblock.ne_nil]
        rfl
      · rw [← List.append_assoc, stopOf_append _ hrest, hspan]

theorem bracketed_ofHeight (height : Nat) {mode : Mode} {tokens : List Token} {expr : Expr}
    (h : (ofHeight height).expr mode tokens expr) : Bracketed tokens expr := by
  induction height generalizing mode tokens expr with
  | zero => exact h.elim
  | succ height ih => exact IsExpression.bracketed h (opens_ofHeight height) ih

end Phrases

/-! ## The characters around an expression -/

/-- A slot adds redundant brackets only: its expression lies within it, and the characters of the
slot before the expression are blanks and round brackets, with as many brackets behind it. -/
theorem Program.slot_wraps {source : String} {program : Program} {slot : Slot}
    (h : Program.parse source = .ok program) (hslot : program.HasNode (.slot slot)) :
    slot.body.span.Within slot.span ∧ ∃ count,
      HoldsOnly '(' count
        ((Span.between slot.span.offset slot.body.span.offset).chars source.toList) ∧
      HoldsOnly ')' count
        ((Span.between slot.body.span.stop slot.span.stop).chars source.toList) := by
  obtain ⟨found, hfound, hderives, -⟩ := Program.derives_of_parse h
  obtain ⟨there, hreads, -⟩ := Reads.start_tokens_eq_ok_iff.1 (tokens_eq_ok_iff.1 hfound)
  obtain ⟨height, mode, part, ⟨before, after, rfl⟩, hderived⟩ := hderives.node_from hslot
  cases hderived with
  | @intro body hexpr =>
      obtain ⟨opens, inner, closes, rfl, hlength, hopens, hcloses, hne, hspan⟩ :=
        (Phrases.bracketed_ofHeight height hexpr).split
      obtain ⟨finish, hreads, -⟩ := Reads.append_iff.1 hreads
      obtain ⟨first, hbefore, hreads⟩ := Reads.append_iff.1 hreads
      obtain ⟨second, hopening, hbehind⟩ := Reads.append_iff.1 hreads
      obtain ⟨third, hinner, hclosing⟩ := Reads.append_iff.1 hbehind
      have hall : opens ++ (inner ++ closes) ≠ [] := by simp [hne]
      have hordered := hreads.ordered.1
      have hon := Span.On.cover hinner.ordered.1 hne
      have hinside : inner ⊆ opens ++ (inner ++ closes) := by simp
      have hwithin := (hon.mono hinside).within_cover hordered
      rw [← hspan] at hwithin
      refine ⟨hwithin, opens.length, ?_, ?_⟩
      · have hof := hbefore.of (Place.start_of source.toList)
        have hchars := (hopening.holdsOnly (c := '(') hof fun token hmem => by
          rw [hopens token hmem]; rfl).1
        rw [hreads.offset_eq hall, hinner.offset_eq hne] at hchars
        rw [hspan]
        exact hchars
      · have hof := hinner.of (hopening.of (hbefore.of (Place.start_of source.toList)))
        have hchars := (hclosing.holdsOnly (c := ')') hof fun token hmem => by
          rw [hcloses token hmem]; rfl).2
        rw [hinner.lastStop_eq hne, hreads.lastStop_eq hall, ← hlength] at hchars
        rw [hspan, hinner.ordered.1.stop_cover hne, hreads.ordered.1.stop_cover hall]
        exact hchars

set_option maxRecDepth 4000 in
/-- A group in a group, called: the slot of its argument has two brackets on each side. -/
theorem Program.slot_wraps_argument :
    ∃ program slot, Program.parse "f( ( (a, (b))) );" = .ok program ∧
      program.HasNode (.slot slot) ∧ slot.span = ⟨3, 11⟩ ∧ slot.body.span = ⟨6, 6⟩ ∧
      slot.body.span.Within slot.span ∧ ∃ count,
        HoldsOnly '(' count ((Span.between slot.span.offset slot.body.span.offset).chars
          "f( ( (a, (b))) );".toList) ∧
        HoldsOnly ')' count ((Span.between slot.body.span.stop slot.span.stop).chars
          "f( ( (a, (b))) );".toList) := by
  let argument : Slot :=
    ⟨.sequence (.name ⟨"a", ⟨6, 1⟩⟩) (.name ⟨"b", ⟨10, 1⟩⟩) ⟨6, 6⟩, ⟨3, 11⟩⟩
  let call : Expr := .call (.name ⟨"f", ⟨0, 1⟩⟩) [argument] ⟨0, 16⟩
  have hprogram : Program.parse "f( ( (a, (b))) );" =
      .ok ⟨[.expression ⟨call, ⟨0, 16⟩⟩], ⟨0, 17⟩⟩ := by cbv
  have hslot : Program.HasNode ⟨[.expression ⟨call, ⟨0, 16⟩⟩], ⟨0, 17⟩⟩ (.slot argument) :=
    .child (((Program.HasNode.top List.mem_cons_self).head rfl).head rfl)
      (.tail _ List.mem_cons_self)
  exact ⟨_, argument, hprogram, hslot, rfl, rfl, Program.slot_wraps hprogram hslot⟩

end Scriptlet
