import Mathlib
import Scriptlet.Proofs.Agreement
import Scriptlet.Proofs.Exactness
import Scriptlet.Proofs.Places

/-!
# Layout is of no account

Blanks, the quotes of strings and the zero before a point change where tokens stand, not which they
are. Two texts whose tokens agree on kind and text are parsed alike: to the same tree but for its
spans, or to the same error at the same token of each text.
-/

namespace Scriptlet

/-- Tokens that agree on kind and text. -/
structure Token.SameText (token other : Token) : Prop where
  kind : token.kind = other.kind
  text : token.text = other.text

/-- Two offsets are the same place of two texts: where the tokens of one index start, or where both
texts end. -/
inductive SamePlace (text text' : List Char) (found found' : List Token) : Nat → Nat → Prop where
  | token {index : Nat} {token other : Token} :
      found[index]? = some token → found'[index]? = some other →
      SamePlace text text' found found' token.span.offset other.span.offset
  | ended : SamePlace text text' found found' text.length text'.length

/-- Two errors say the same of the same places. -/
structure SyntaxError.SameAt (place : Nat → Nat → Prop) (error other : SyntaxError) : Prop where
  kind : error.kind = other.kind
  message : error.message = other.message
  offset : place error.offset other.offset
  statement : Option.Rel place error.statement other.statement

/-- A program without its positions. -/
def Program.unplaced (program : Program) : Program :=
  program.mapSpans fun _ => ⟨0, 0⟩

/-- Two texts are parsed alike: to the same tree without its positions, or to the same error. -/
inductive ParsedAlike (place : Nat → Nat → Prop) :
    Except SyntaxError Program → Except SyntaxError Program → Prop where
  | ok {program other} :
      program.unplaced = other.unplaced → ParsedAlike place (.ok program) (.ok other)
  | error {error other} : error.SameAt place other → ParsedAlike place (.error error) (.error other)

/-- Two runs that are at the same token of their texts. -/
def Simulation.layout (place : Nat → Nat → Prop) (found found' : List Token)
    (finish finish' : Place) : Simulation where
  state left right :=
    left.depth = right.depth ∧
      ∃ index, Reads left.place (found.drop index) finish ∧
        Reads right.place (found'.drop index) finish'
  start := place
  stop _ _ := True
  span span other := place span.offset other.offset
  failure failure other :=
    failure.cause.kind = other.cause.kind ∧ failure.cause.message = other.cause.message ∧
      place failure.offset other.offset ∧ Option.Rel place failure.statement other.statement
  gaveUp _ := False

/-- What a list of tokens is from an index on starts with the token of that index. -/
theorem drop_eq_cons {found more : List Token} {index : Nat} {token : Token}
    (h : found.drop index = token :: more) :
    found[index]? = some token ∧ found.drop (index + 1) = more := by
  constructor
  · rw [← List.head?_drop, h]
    rfl
  · rw [← List.tail_drop, h]
    rfl

namespace Simulation

section

variable {text text' : List Char} {found found' : List Token} {finish finish' : Place}

/-- At the same token of both texts the next tokens agree, or both texts end. -/
theorem layout_next (hsame : List.Forall₂ Token.SameText found found') {index : Nat}
    {here here' : Place} (hleft : Reads here (found.drop index) finish)
    (hright : Reads here' (found'.drop index) finish') :
    (here = finish ∧ here' = finish') ∨
      ∃ token other, found[index]? = some token ∧ found'[index]? = some other ∧
        here.Next token ∧ here'.Next other ∧ token.SameText other ∧
        Reads (here.past token) (found.drop (index + 1)) finish ∧
        Reads (here'.past other) (found'.drop (index + 1)) finish' := by
  have hdrop := List.forall₂_drop index hsame
  cases hleft' : found.drop index with
  | nil =>
      rw [hleft', List.forall₂_nil_left_iff] at hdrop
      rw [hleft'] at hleft
      rw [hdrop] at hright
      exact .inl ⟨(Reads.nil_iff.1 hleft).symm, (Reads.nil_iff.1 hright).symm⟩
  | cons token more =>
      obtain ⟨other, more', htoken, -, hright'⟩ := List.forall₂_cons_left_iff.1 (hleft' ▸ hdrop)
      obtain ⟨hfound, hmore⟩ := drop_eq_cons hleft'
      obtain ⟨hfound', hmore'⟩ := drop_eq_cons hright'
      rw [hleft'] at hleft
      rw [hright'] at hright
      obtain ⟨hnext, hrest⟩ := Reads.cons_iff.1 hleft
      obtain ⟨hnext', hrest'⟩ := Reads.cons_iff.1 hright
      exact .inr ⟨token, other, hfound, hfound', hnext, hnext', htoken, hmore ▸ hrest,
        hmore' ▸ hrest'⟩

theorem layout_lawful (hsame : List.Forall₂ Token.SameText found found') (hended : finish.Ended)
    (hended' : finish'.Ended) (hin : finish.cursor.In text) (hin' : finish'.cursor.In text') :
    (layout (SamePlace text text' found found') found found' finish finish').Lawful := by
  have hfinish : SamePlace text text' found found' finish.cursor.offset finish'.cursor.offset := by
    rw [hended.offset_eq hin, hended'.offset_eq hin']
    exact .ended
  -- The offset of a run tells the index of its next token, or that the text ends.
  have hplace {left right : ParseState} {index : Nat}
      (hleft : Reads left.place (found.drop index) finish)
      (hright : Reads right.place (found'.drop index) finish') :
      SamePlace text text' found found' left.cursor.offset right.cursor.offset := by
    rcases layout_next hsame hleft hright with
      ⟨rfl, rfl⟩ | ⟨token, other, hfound, hfound', hnext, hnext', -⟩
    · exact hfinish
    · have hoffset := hnext.offset_eq
      have hoffset' := hnext'.offset_eq
      exact hoffset ▸ hoffset' ▸ .token hfound hfound'
  constructor
  case depth_eq => exact fun hstate => hstate.1
  case atDepth => exact fun depth hstate => ⟨rfl, hstate.2⟩
  case noted => exact fun _ _ hstate => hstate
  case offset =>
    rintro left right ⟨-, index, hleft, hright⟩
    exact hplace hleft hright
  case peeks =>
    rintro left right ⟨hdepth, index, hleft, hright⟩
    rcases layout_next hsame hleft hright with
      ⟨rfl, rfl⟩ | ⟨token, other, hfound, hfound', hnext, hnext', htoken, hrest, hrest'⟩
    · exact .ended hended hended' ⟨rfl, rfl, hfinish, .none⟩
    · exact .next ⟨hnext, hnext', ⟨htoken.kind, htoken.text, .token hfound hfound'⟩,
        hdepth, index + 1, hrest, hrest'⟩
  case lastStop => exact fun _ => trivial
  case span_offset => exact fun hspan => hspan
  case span_stop => exact fun _ => trivial
  case between => exact fun hstart _ => hstart
  case refused => exact fun hcause hoffset => ⟨hcause.kind_eq, hcause.message_eq, hoffset, .none⟩
  case inStatement =>
    rintro ⟨cause, offset, statement⟩ ⟨cause', offset', statement'⟩ start start'
      ⟨hkind, hmessage, hoffset, hstatement⟩ hstart
    cases hstatement with
    | some hinner => exact ⟨hkind, hmessage, hoffset, .some hinner⟩
    | none => exact ⟨hkind, hmessage, hoffset, .some hstart⟩
  case gaveUp_inStatement => exact fun _ hfalse => hfalse.elim

end

end Simulation

/-- Texts whose tokens agree on kind and text are parsed alike. -/
theorem parse_of_sameText {source source' : String} {found found' : List Token}
    (hfound : tokens source = .ok found) (hfound' : tokens source' = .ok found')
    (hsame : List.Forall₂ Token.SameText found found') :
    ParsedAlike (SamePlace source.toList source'.toList found found') (Program.parse source)
      (Program.parse source') := by
  obtain ⟨finish, hreads, hended⟩ :=
    Reads.start_tokens_eq_ok_iff.1 (tokens_eq_ok_iff.1 hfound)
  obtain ⟨finish', hreads', hended'⟩ :=
    Reads.start_tokens_eq_ok_iff.1 (tokens_eq_ok_iff.1 hfound')
  have hlawful := Simulation.layout_lawful hsame hended hended'
    (hreads.in (Cursor.start_in source.toList)) (hreads'.in (Cursor.start_in source'.toList))
  have hstate : (Simulation.layout (SamePlace source.toList source'.toList found found') found
      found' finish finish').state (.start source.toList) (.start source'.toList) :=
    ⟨rfl, 0, hreads, hreads'⟩
  have hagrees := Simulation.agrees_statements_ofHeight hlawful nestingLimit hstate
  rw [Program.parse_run, Program.parse_run]
  unfold parseWithin
  generalize (Level.ofHeight nestingLimit).statements (.start source.toList) = outcome at hagrees ⊢
  generalize (Level.ofHeight nestingLimit).statements (.start source'.toList) = outcome'
    at hagrees ⊢
  cases hagrees with
  | ok hstatements _ =>
      refine .ok ?_
      unfold Program.unplaced Program.mapSpans
      rw [Statement.Alike.mapSpansAll_eq (fun _ _ _ => rfl) hstatements]
  | error hfailure _ =>
      obtain ⟨hkind, hmessage, hoffset, hstatement⟩ := hfailure
      exact .error ⟨hkind, hmessage, hoffset, hstatement⟩
  | gaveUp hfalse => exact hfalse.elim

/-- Blanks, other quotes and a zero before the point change nothing but positions. -/
theorem parse_of_sameText_spaced :
    ∃ found found', tokens "f( \"x\" , .5 ) ;" = .ok found ∧ tokens "f('x',0.5);" = .ok found' ∧
      ParsedAlike (SamePlace "f( \"x\" , .5 ) ;".toList "f('x',0.5);".toList found found')
        (Program.parse "f( \"x\" , .5 ) ;") (Program.parse "f('x',0.5);") := by
  have hfound : tokens "f( \"x\" , .5 ) ;" =
      .ok [⟨.word, "f", ⟨0, 1⟩⟩, ⟨.openRound, "(", ⟨1, 1⟩⟩, ⟨.string, "x", ⟨3, 3⟩⟩,
        ⟨.comma, ",", ⟨7, 1⟩⟩, ⟨.number, "0.5", ⟨9, 2⟩⟩, ⟨.closeRound, ")", ⟨12, 1⟩⟩,
        ⟨.semicolon, ";", ⟨14, 1⟩⟩] := by cbv
  have hfound' : tokens "f('x',0.5);" =
      .ok [⟨.word, "f", ⟨0, 1⟩⟩, ⟨.openRound, "(", ⟨1, 1⟩⟩, ⟨.string, "x", ⟨2, 3⟩⟩,
        ⟨.comma, ",", ⟨5, 1⟩⟩, ⟨.number, "0.5", ⟨6, 3⟩⟩, ⟨.closeRound, ")", ⟨9, 1⟩⟩,
        ⟨.semicolon, ";", ⟨10, 1⟩⟩] := by cbv
  refine ⟨_, _, hfound, hfound', parse_of_sameText hfound hfound' ?_⟩
  repeat first
    | exact .nil
    | refine .cons ⟨rfl, rfl⟩ ?_

end Scriptlet
