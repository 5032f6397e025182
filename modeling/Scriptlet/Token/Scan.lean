import Scriptlet.Text.Blank
import Scriptlet.Token.Spelling

/-!
# Scanning a token

`scan` reads the lexeme that a text starts with. It sees only the text from the lexeme on, so
what it finds cannot depend on what stands before. Every lexeme is taken as long as it can be; an
operator is the whole run of operator characters or a fault.

`length_pos_of_scan` says that a lexeme is never empty, and `scan_eq_none_iff` that only the empty
text has none, so reading lexeme after lexeme comes to an end.
-/

namespace Scriptlet

/-- Why no lexeme can be read where a text starts. -/
inductive Fault where
  /-- A run of operator characters that is no operator. -/
  | unknownOperator (run : String)
  /-- A string that its line or the text ends before its quote comes again. -/
  | unterminatedString
  /-- A point that neither a digit nor a name follows. -/
  | missingFieldName
  /-- A character that nothing starts with. -/
  | unexpectedCharacter (c : Char)
deriving DecidableEq, Repr

/-- A token without its place: the kind, the text, and the number of characters taken. -/
structure Lexeme where
  kind : Kind
  text : String
  length : Nat
deriving DecidableEq, Repr

namespace Lexeme

open Spelling Text

/-- The lexeme whose text is its spelling. -/
def spelled (kind : Kind) (spelling : List Char) : Lexeme :=
  ⟨kind, String.ofList spelling, spelling.length⟩

/-- The run of operator characters that a text starts with, as an operator. -/
def scanOperator (text : List Char) : Except Fault Lexeme :=
  let run := text.takeWhile isOperatorChar
  match operatorKind? (String.ofList run) with
  | some kind => .ok (spelled kind run)
  | none => .error (.unknownOperator (String.ofList run))

/-- The word that a text starts with. -/
def scanWord (text : List Char) : Lexeme :=
  spelled .word (text.takeWhile isWordChar)

/-- The characters up to the quote that ends a string. A backslash keeps the quote right after it
from ending the string; `previous` is the character before the text, and `taken` holds, last
first, what has been read. -/
def stringBody (quote : Char) : Char → List Char → List Char → Option (List Char)
  | _, _, [] => none
  | previous, taken, c :: rest =>
    if c = '\n' then none
    else if c = quote ∧ previous ≠ '\\' then some taken.reverse
    else stringBody quote c (c :: taken) rest

/-- The string whose quote stands before a text. -/
def scanString (quote : Char) (text : List Char) : Except Fault Lexeme :=
  match stringBody quote quote [] text with
  | some body => .ok ⟨.string, String.ofList body, body.length + 2⟩
  | none => .error .unterminatedString

/-- The number that a text starts with: digits and, if a digit follows the point, a fraction. -/
def scanNumber (text : List Char) : Lexeme :=
  let whole := text.takeWhile Char.isDigit
  match text.dropWhile Char.isDigit with
  | '.' :: rest =>
    let fraction := rest.takeWhile Char.isDigit
    if fraction.isEmpty then spelled .number whole else spelled .number (whole ++ '.' :: fraction)
  | _ => spelled .number whole

/-- What a point starts, from the text after the point: a number below one, which is given a zero
before its point, or an access to a field, whose name may stand after blanks. -/
def scanPoint (text : List Char) : Except Fault Lexeme :=
  let fraction := text.takeWhile Char.isDigit
  if fraction.isEmpty then
    match dropBlanks text with
    | c :: rest =>
      if isWordStart c then
        let name := c :: rest.takeWhile isWordChar
        .ok ⟨.field, String.ofList name, 1 + leadingBlanks text + name.length⟩
      else .error .missingFieldName
    | [] => .error .missingFieldName
  else .ok ⟨.number, String.ofList ('0' :: '.' :: fraction), 1 + fraction.length⟩

/-- The lexeme that a text starts with, if the text is not at its end. Blanks start none. -/
def scan : List Char → Except Fault (Option Lexeme)
  | [] => .ok none
  | c :: rest =>
    match punctuationKind? c with
    | some kind => .ok (some (spelled kind [c]))
    | none =>
      if isOperatorChar c then some <$> scanOperator (c :: rest)
      else if isWordStart c then .ok (some (scanWord (c :: rest)))
      else if c = '\'' ∨ c = '"' then some <$> scanString c rest
      else if c.isDigit then .ok (some (scanNumber (c :: rest)))
      else if c = '.' then some <$> scanPoint rest
      else .error (.unexpectedCharacter c)

theorem length_pos_of_scanOperator {c : Char} {rest : List Char} {lexeme : Lexeme}
    (hc : isOperatorChar c = true) (h : scanOperator (c :: rest) = .ok lexeme) :
    0 < lexeme.length := by
  simp only [scanOperator, List.takeWhile_cons, hc, if_true] at h
  split at h
  · cases h
    simp [spelled]
  · cases h

theorem length_pos_of_scanString {quote : Char} {text : List Char} {lexeme : Lexeme}
    (h : scanString quote text = .ok lexeme) : 0 < lexeme.length := by
  simp only [scanString] at h
  split at h
  · cases h
    simp
  · cases h

theorem length_pos_of_scanPoint {text : List Char} {lexeme : Lexeme}
    (h : scanPoint text = .ok lexeme) : 0 < lexeme.length := by
  simp only [scanPoint] at h
  split at h
  · split at h
    · split at h
      · cases h
        dsimp only
        omega
      · cases h
    · cases h
  · cases h
    dsimp only
    omega

theorem length_pos_of_scanNumber {c : Char} {rest : List Char} (hc : c.isDigit = true) :
    0 < (scanNumber (c :: rest)).length := by
  simp only [scanNumber, List.takeWhile_cons, hc, if_true]
  split
  · split <;> simp [spelled]
  · simp [spelled]

/-- A lexeme is never empty. -/
theorem length_pos_of_scan {text : List Char} {lexeme : Lexeme}
    (h : scan text = .ok (some lexeme)) : 0 < lexeme.length := by
  cases text with
  | nil => cases h
  | cons c rest =>
    simp only [scan] at h
    split at h
    · cases h
      simp [spelled]
    · split at h
      · next hc =>
        cases hl : scanOperator (c :: rest) with
        | error fault => rw [hl] at h; cases h
        | ok found =>
          rw [hl] at h
          cases h
          exact length_pos_of_scanOperator hc hl
      · split at h
        · next hc =>
          cases h
          simp [scanWord, spelled, isWordChar, hc]
        · split at h
          · cases hl : scanString c rest with
            | error fault => rw [hl] at h; cases h
            | ok found =>
              rw [hl] at h
              cases h
              exact length_pos_of_scanString hl
          · split at h
            · next hc =>
              cases h
              exact length_pos_of_scanNumber hc
            · split at h
              · cases hl : scanPoint rest with
                | error fault => rw [hl] at h; cases h
                | ok found =>
                  rw [hl] at h
                  cases h
                  exact length_pos_of_scanPoint hl
              · cases h

/-- Only the empty text has no lexeme and no fault. -/
theorem scan_eq_none_iff {text : List Char} : scan text = .ok none ↔ text = [] := by
  cases text with
  | nil => simp [scan]
  | cons c rest =>
    simp only [scan, reduceCtorEq, iff_false]
    intro h
    split at h
    · cases h
    · split at h
      · cases hl : scanOperator (c :: rest) <;> rw [hl] at h <;> cases h
      · split at h
        · cases h
        · split at h
          · cases hl : scanString c rest <;> rw [hl] at h <;> cases h
          · split at h
            · cases h
            · split at h
              · cases hl : scanPoint rest <;> rw [hl] at h <;> cases h
              · cases h

end Lexeme

end Scriptlet
