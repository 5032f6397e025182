import Scriptlet.Error.Cause

/-!
# Cursors

A cursor is a place in a text: an offset and the text from there on. Tokens are read at a cursor,
and `past` moves it over a token and the blanks behind it, to where the next token starts.

`Cursor.tokens` reads the tokens from a cursor to the end of the text. It serves to inspect how a
text is read; the parser asks for one token at a time.
-/

namespace Scriptlet

/-- An offset in a text and the text from there on. -/
structure Cursor where
  offset : Nat
  rest : List Char
deriving DecidableEq, Repr

namespace Cursor

open Text

/-- The place at an offset of a text, which may lie past the end. -/
def ofOffset (text : List Char) (offset : Nat) : Cursor :=
  ⟨offset, text.drop offset⟩

/-- The first place from a cursor on that is not before a blank. -/
def skipBlanks (cursor : Cursor) : Cursor :=
  ⟨cursor.offset + leadingBlanks cursor.rest, dropBlanks cursor.rest⟩

/-- Where the first token of a text starts. -/
def start (text : List Char) : Cursor :=
  (ofOffset text 0).skipBlanks

/-- The token that starts at a cursor; none at the end of the text. -/
def peek (cursor : Cursor) : Except Failure (Option Token) :=
  match Lexeme.scan cursor.rest with
  | .ok (some lexeme) =>
    .ok (some ⟨lexeme.kind, lexeme.text, ⟨cursor.offset, lexeme.length⟩⟩)
  | .ok none => .ok none
  | .error fault => .error ⟨.fault fault, cursor.offset, none⟩

/-- Where the next token starts after a token that starts at the cursor. -/
def past (cursor : Cursor) (token : Token) : Cursor :=
  skipBlanks ⟨token.span.stop, cursor.rest.drop token.span.length⟩

/-- A token takes at least one character, so reading goes on with less text. -/
theorem length_rest_past_lt {cursor : Cursor} {token : Token}
    (h : cursor.peek = .ok (some token)) :
    (cursor.past token).rest.length < cursor.rest.length := by
  simp only [peek] at h
  split at h
  · next lexeme hscan =>
    cases h
    have hpos := Lexeme.length_pos_of_scan hscan
    have hrest : cursor.rest ≠ [] := by
      intro hnil
      rw [hnil] at hscan
      cases hscan
    have hlength := List.length_pos_iff.mpr hrest
    have hblanks := leadingBlanks_add_length (cursor.rest.drop lexeme.length)
    simp only [past, skipBlanks]
    rw [List.length_drop] at hblanks
    omega
  · cases h
  · cases h

/-- The tokens from a cursor to the end of the text, after those in `before`, which holds the last
one first. -/
def tokensAfter (before : List Token) (cursor : Cursor) : Except Failure (List Token) :=
  match _ : cursor.peek with
  | .ok (some token) => tokensAfter (token :: before) (cursor.past token)
  | .ok none => .ok before.reverse
  | .error failure => .error failure
termination_by cursor.rest.length
decreasing_by exact length_rest_past_lt ‹_›

/-- The tokens from a cursor to the end of the text. -/
def tokens (cursor : Cursor) : Except Failure (List Token) :=
  tokensAfter [] cursor

end Cursor

end Scriptlet
