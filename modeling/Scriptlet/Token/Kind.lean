import Scriptlet.Span

/-!
# Tokens

A token is what the parser reads next: its kind, its text and its span. The kinds are the marks of
the language, one kind a spelling, and four kinds whose text varies: words, strings, numbers and
field accesses. Each kind has two printed names, both made from the same words.
-/

namespace Scriptlet

/-- The kinds of tokens. Reserved words are words; only the parser tells them apart. -/
inductive Kind where
  | openRound | closeRound | openSquare | closeSquare | openCurly | closeCurly
  | semicolon | comma | colon
  | assign | equals | strictEquals | less | more | lessEquals | moreEquals
  | plusAssign | minusAssign | timesAssign | divideAssign | increment | decrement
  | arrow
  | word | string | number | field
deriving DecidableEq, Repr, Inhabited

namespace Kind

/-- Whether a kind closes a bracket. -/
def isClosing : Kind → Bool
  | closeRound | closeSquare | closeCurly => true
  | _ => false

/-- The words that the printed names of a kind are made of. -/
def nameWords : Kind → List String
  | openRound => ["Round", "Bracket", "Left"]
  | closeRound => ["Round", "Bracket", "Right"]
  | openSquare => ["Square", "Bracket", "Left"]
  | closeSquare => ["Square", "Bracket", "Right"]
  | openCurly => ["Curly", "Bracket", "Left"]
  | closeCurly => ["Curly", "Bracket", "Right"]
  | semicolon => ["Statement", "Delimiter"]
  | comma => ["List", "Delimiter"]
  | colon => ["Colon"]
  | assign => ["Assign"]
  | equals => ["Equals"]
  | strictEquals => ["Strict", "Equals"]
  | less => ["Less"]
  | more => ["More"]
  | lessEquals => ["Less", "Equals"]
  | moreEquals => ["More", "Equals"]
  | plusAssign => ["Plus", "Assign"]
  | minusAssign => ["Minus", "Assign"]
  | timesAssign => ["Mul", "Assign"]
  | divideAssign => ["Div", "Assign"]
  | increment => ["Increment"]
  | decrement => ["Decrement"]
  | arrow => ["Arrow"]
  | word => ["Identifier"]
  | string => ["String", "Literal"]
  | number => ["Number", "Literal"]
  | field => ["Field", "Access"]

/-- The name of a kind in a trace, such as `FieldAccess`. -/
def traceName (kind : Kind) : String :=
  String.join kind.nameWords

/-- The name of a kind in a token list, such as `FIELD_ACCESS`. -/
def listName (kind : Kind) : String :=
  "_".intercalate (kind.nameWords.map String.toUpper)

end Kind

/-- A token of a text. The text of a mark or a word is its spelling; of a field access, the name;
of a string, what stands between the quotes; of a number, the number with a digit on each side of
its point. -/
structure Token where
  kind : Kind
  text : String
  span : Span
deriving DecidableEq, Repr, Inhabited

end Scriptlet
