import Mathlib
import Scriptlet.Proofs.Appending
import Scriptlet.Proofs.Consumption
import Scriptlet.Proofs.Scanning
import Scriptlet.Proofs.Shifting
import Scriptlet.Proofs.Spans

/-!
# Scanning is local

Which token starts at an offset of a text hangs on the characters from there on, whatever stands
before them, and no further than to the first blank or punctuation character behind the token. The
excerpt that a fault shows starts at the fault, so an error as well tells of no text before it.
-/

namespace Scriptlet

open Spelling Text

/-- The error so much further on. -/
def SyntaxError.shift (distance : Nat) (error : SyntaxError) : SyntaxError :=
  { error with offset := error.offset + distance }

/-- The token that starts at an offset of a text, none from the end on, or why there is none. -/
def nextToken (text : List Char) (offset : Nat) : Except SyntaxError (Option Token) :=
  (Cursor.ofOffset text offset).peek.mapError (·.report text)

/-- Whether a character ends the token before it, whatever stands behind the character. -/
def Text.isDelimiter (c : Char) : Bool :=
  isBlank c || (punctuationKind? c).isSome

variable {text : List Char} {offset : Nat} {token : Token} {c : Char}

/-! ## What stands before a token -/

/-- The place as far behind some text as another one is in the text behind it. -/
theorem Cursor.ofOffset_append (before text : List Char) (offset : Nat) :
    Cursor.ofOffset (before ++ text) (before.length + offset) =
      (Cursor.ofOffset text offset).shift before.length := by
  rw [Cursor.ofOffset, List.drop_length_add_append, Nat.add_comm]
  rfl

/-- The excerpt of a line starts at the offset that it is for. -/
theorem Text.lineExcerpt_append (before text : List Char) (offset : Nat) :
    lineExcerpt (before ++ text) (offset + before.length) = lineExcerpt text offset := by
  rw [lineExcerpt, Nat.add_comm, List.drop_length_add_append, lineExcerpt]

/-- Behind some text a fault is reported as without it, but for its offset. -/
theorem Failure.report_shift (fault : Fault) (before text : List Char) (offset : Nat) :
    ((⟨.fault fault, offset, none⟩ : Failure).shift before.length).report (before ++ text) =
      (Failure.report ⟨.fault fault, offset, none⟩ text).shift before.length :=
  congrArg (SyntaxError.mk _ _ _ · _) (lineExcerpt_append before text offset)

/-! ## What stands behind a token -/

/-- A delimiter goes on with no word and no operator, and is no point. -/
theorem ends_of_isDelimiter (h : isDelimiter c = true) :
    isWordChar c = false ∧ isOperatorChar c = false ∧ c ≠ '.' := by
  rcases Bool.or_eq_true_iff.1 h with hblank | hmark
  · obtain ⟨hword, hoperator⟩ := ends_of_blank hblank
    refine ⟨hword, hoperator, ?_⟩
    rintro rfl
    cases hblank
  · obtain ⟨hword, hoperator, -⟩ := ends_of_mark hmark
    refine ⟨hword, hoperator, ?_⟩
    rintro rfl
    cases hmark

/-- A token stands where it does when the text behind it is cut off and a delimiter put there. -/
theorem Place.Next.cut {stop : Nat} (h : Place.Next ⟨.ofOffset text offset, stop⟩ token)
    (hc : isDelimiter c = true) (more : List Char) :
    Place.Next ⟨.ofOffset (text.take token.span.stop ++ c :: more) offset, stop⟩ token := by
  obtain ⟨hword, hoperator, hpoint⟩ := ends_of_isDelimiter hc
  obtain ⟨lexeme, body, behind, hbody, hstands, rfl, -⟩ := h.stands
  have hdrop : text.drop offset = body ++ behind := hbody
  have hle : offset ≤ text.length := by
    have hlength := congrArg List.length hdrop
    have hnonempty : offset < offset + body.length := h.nonempty
    rw [List.length_drop, List.length_append] at hlength
    omega
  -- What is kept of the text is what stands before the token, and the token.
  have htake : text.take (offset + body.length) = text.take offset ++ body := by
    rw [List.take_add, hdrop, List.take_left]
  have hkept : (text.take (offset + body.length) ++ c :: more).drop offset = body ++ c :: more := by
    rw [htake, List.append_assoc, List.drop_left' (List.length_take_of_le hle)]
  have hbehind : lexeme.Stands body ([] ++ behind) := hstands
  exact Place.next_of_stands hkept
    (hbehind.before hword hpoint (fun hc => absurd hc (hoperator ▸ Bool.false_ne_true)) more)

/-! ## Tokens at offsets -/

theorem nextToken_eq_ok_iff {token? : Option Token} :
    nextToken text offset = .ok token? ↔ (Cursor.ofOffset text offset).peek = .ok token? := by
  unfold nextToken
  cases (Cursor.ofOffset text offset).peek <;> simp [Except.mapError]

/-- What stands at an offset stands there behind some text too, as a token or a fault further on; and
a token stands there when any text that starts with a delimiter is put behind it in place of what is
there. The scanner that goes over a buffer, index by index, finds the same. -/
theorem nextToken_local (text : List Char) (offset : Nat) :
    (∀ before : List Char, nextToken (before ++ text) (before.length + offset) =
      ((nextToken text offset).map (Option.map (Token.shift before.length))).mapError
        (SyntaxError.shift before.length)) ∧
    (∀ token, nextToken text offset = .ok (some token) →
      ∀ c, isDelimiter c = true → ∀ more,
        nextToken (text.take token.span.stop ++ c :: more) offset = .ok (some token)) ∧
    ∀ buffer : Buffer, buffer.chars = text →
      (buffer.nextToken offset).map (Except.mapError (·.report text)) =
        .ok (nextToken text offset) := by
  refine ⟨fun before => ?_, fun token htoken c hc more => ?_, ?_⟩
  · unfold nextToken
    rw [Cursor.ofOffset_append, Cursor.peek_shift]
    cases hpeek : (Cursor.ofOffset text offset).peek with
    | ok token? => rfl
    | error failure =>
        obtain ⟨fault, rfl⟩ := Cursor.peek_eq_error hpeek
        exact congrArg Except.error (Failure.report_shift fault before text offset)
  · have hnext : Place.Next ⟨.ofOffset text offset, 0⟩ token := nextToken_eq_ok_iff.1 htoken
    exact nextToken_eq_ok_iff.2 (hnext.cut hc more)
  · rintro buffer rfl
    rw [Buffer.nextToken_eq]
    rfl

/-- An access to a field, over blanks and behind a quote, is not longer for what a rare blank keeps
from it. -/
theorem nextToken_local_field :
    let field : Token := ⟨.field, "b1", ⟨1, 5⟩⟩
    nextToken "a.  b1.c".toList 1 = .ok (some field) ∧ isDelimiter '\u3000' = true ∧
      nextToken "'a.  b1.c".toList 2 = .ok (some (field.shift 1)) ∧
      nextToken "a.  b1\u30002".toList 1 = .ok (some field) := by
  intro field
  obtain ⟨hbefore, hbehind, -⟩ := nextToken_local "a.  b1.c".toList 1
  have hfield : nextToken "a.  b1.c".toList 1 = .ok (some field) := by cbv
  have hdelimiter : isDelimiter '\u3000' = true := by decide
  refine ⟨hfield, hdelimiter, ?_, hbehind field hfield _ hdelimiter "2".toList⟩
  have hshifted := hbefore "'".toList
  rw [hfield] at hshifted
  exact hshifted

end Scriptlet
