import Mathlib
import Scriptlet.Proofs.Machine
import Scriptlet.Proofs.Scanning

/-!
# Nothing panics

A buffer makes a machine for the parser that checks whatever it does: the scanner looks at
characters under their indices, the counter of levels is a word, and a failure is quoted between
bounds in the buffer. Its checks always pass. So the parser runs every buffer to its own end, and
what it is made of can be called at every offset of every buffer.
-/

namespace Scriptlet

namespace Buffer

variable {buffer : Buffer}

/-- The machine that runs the parser over a buffer. -/
def machine (buffer : Buffer) : Machine where
  text := buffer.chars
  peek := buffer.nextToken
  past := buffer.past
  report := buffer.report
  enter depth := Word.add depth 1
  leave depth := Word.sub depth 1

/-- Every level of nesting is a word, and none is left that was not entered. -/
theorem lawful_machine : buffer.machine.Lawful where
  peek := nextToken_eq
  past := past_eq
  report := report_eq
  enter h := Word.add_eq (Nat.lt_of_le_of_lt (Nat.succ_le_of_lt h) (by decide))
  leave h _ := Word.sub_eq h

/-- Whatever is done with a buffer comes to an end without a panic, and to the end that it comes to
with the text. -/
structure NeverPanics (buffer : Buffer) : Prop where
  nextToken (offset) :
    buffer.nextToken offset = .ok (Cursor.ofOffset buffer.chars offset).peek
  skipBlanks (offset) :
    buffer.skipBlanks offset = .ok (Cursor.ofOffset buffer.chars offset).skipBlanks.offset
  excerpt (kind offset) : buffer.excerpt kind offset = .ok (kind.excerpt buffer.chars offset)
  locate (offset) : buffer.locate offset = .ok (Location.ofOffset buffer.chars offset)
  tokens : buffer.tokens = .ok (Cursor.start buffer.chars).tokens
  /-- The parser starts at the first token, with nothing open. -/
  parse : ∃ start, buffer.skipBlanks 0 = .ok start ∧
    buffer.machine.Runs (Level.ofHeight nestingLimit).statements
      ⟨.ofOffset buffer.chars start, 0, 0, []⟩ (parseWithin nestingLimit buffer.chars)
  report (failure) : buffer.report failure = .ok (failure.report buffer.chars)
  toDiagnostic (error) : buffer.toDiagnostic error = .ok (error.toDiagnostic buffer.chars)

/-- The scanner, the parser and the makers of reports never panic: for every buffer, and where an
offset is given for every offset, inside the buffer or past its end. -/
theorem neverPanics (buffer : Buffer) : buffer.NeverPanics where
  nextToken := nextToken_eq
  skipBlanks := skipBlanks_eq
  excerpt := excerpt_eq
  locate := locate_eq
  tokens := tokens_eq
  parse := by
    refine ⟨_, skipBlanks_eq 0, ?_⟩
    have hstart : ParseState.start buffer.chars =
        ⟨.ofOffset buffer.chars (Cursor.start buffer.chars).offset, 0, 0, []⟩ := by
      rw [← (Cursor.start_in buffer.chars).eq_ofOffset]
      rfl
    exact hstart ▸ lawful_machine.runs_statements
  report := report_eq
  toDiagnostic := toDiagnostic_eq

/-- A buffer with a number that starts with its point, before a string that nothing closes: the
scanner looks in front of it and behind it, and offsets past its end are past every word. -/
theorem neverPanics_unclosed :
    ∃ buffer : Buffer, buffer.chars = "a\n.5 'b".toList ∧ buffer.NeverPanics ∧
      buffer.skipBlanks 1 = .ok 2 ∧
      buffer.nextToken 2 = .ok (.ok (some ⟨.number, "0.5", ⟨2, 2⟩⟩)) ∧
      buffer.nextToken wordCount = .ok (.ok none) ∧
      buffer.tokens = .ok (.error ⟨.fault .unterminatedString, 5, none⟩) ∧
      buffer.excerpt .unexpectedToken wordCount = .ok "" ∧
      buffer.excerpt .unexpectedToken 12 = .ok " 'b" ∧
      buffer.locate wordCount = .ok ⟨2, 6⟩ := by
  let buffer : Buffer := ⟨"a\n.5 'b".toList, by decide⟩
  have h : buffer.NeverPanics := neverPanics buffer
  exact ⟨buffer, rfl, h, (h.skipBlanks _).trans (by cbv), (h.nextToken _).trans (by cbv),
    (h.nextToken _).trans (by cbv), h.tokens.trans (by cbv), (h.excerpt _ _).trans (by cbv),
    (h.excerpt _ _).trans (by cbv), (h.locate _).trans (by cbv)⟩

end Buffer

end Scriptlet
