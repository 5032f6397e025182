import Scriptlet.Token.Kind

/-!
# Spellings

The fixed spellings of the language: punctuation, a character each; operators, matched as whole
runs of operator characters; and the reserved words. Among the reserved words are those that start
a declaration and those that start a statement the language leaves out.
-/

namespace Scriptlet.Spelling

/-- The punctuation characters. Each is a token by itself. -/
def punctuation : List (Char × Kind) :=
  [('(', .openRound), (')', .closeRound), ('[', .openSquare), (']', .closeSquare),
   ('\x7b', .openCurly), ('\x7d', .closeCurly), (';', .semicolon)]

/-- The characters that operators are made of. -/
def operatorChars : List Char :=
  ['<', '>', '+', '-', '*', '/', '=', ':', ',']

/-- The operators. A run of operator characters is one of these as a whole or no token at all. -/
def operators : List (String × Kind) :=
  [("=", .assign), ("==", .equals), ("===", .strictEquals), ("<", .less), (">", .more),
   ("<=", .lessEquals), (">=", .moreEquals), ("+=", .plusAssign), ("-=", .minusAssign),
   ("*=", .timesAssign), ("/=", .divideAssign), ("++", .increment), ("--", .decrement),
   ("=>", .arrow), (":", .colon), (",", .comma)]

/-- The words that start a declaration of variables. -/
def variableWords : List String :=
  ["var", "let", "const"]

/-- The word that starts a declaration of a function. -/
def functionWord : String :=
  "function"

/-- The words that start a statement which the language does not have. -/
def unsupportedWords : List String :=
  ["class", "for", "while", "if", "switch", "case", "import", "export"]

/-- The reserved words: no declaration may use one as a name. -/
def reservedWords : List String :=
  variableWords ++ functionWord :: unsupportedWords

/-- The kind of a punctuation character. -/
def punctuationKind? (c : Char) : Option Kind :=
  punctuation.lookup c

/-- The kind of an operator, from its whole spelling. -/
def operatorKind? (text : String) : Option Kind :=
  operators.lookup text

/-- Whether operators are made of a character. -/
def isOperatorChar (c : Char) : Bool :=
  operatorChars.contains c

/-- Whether a word is reserved. -/
def isReserved (word : String) : Bool :=
  reservedWords.contains word

/-- Whether a word may start with a character. -/
def isWordStart (c : Char) : Bool :=
  c.isAlpha || c == '_'

/-- Whether a word may go on with a character. -/
def isWordChar (c : Char) : Bool :=
  isWordStart c || c.isDigit

/-- Punctuation characters are no operator characters. -/
example : ∀ entry ∈ punctuation, isOperatorChar entry.1 = false := by decide

end Scriptlet.Spelling
