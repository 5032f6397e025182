/-!
# Blank characters

A character is blank when it has the Unicode property `White_Space`. Blanks separate tokens and
are trimmed from the end of a report. `dropBlanks` and `leadingBlanks` split a text at its first
character that is not blank.
-/

namespace Scriptlet.Text

/-- The blank characters as ranges of code points, ends included, in increasing order. -/
def blankRanges : List (Nat × Nat) :=
  [(0x0009, 0x000D), (0x0020, 0x0020), (0x0085, 0x0085), (0x00A0, 0x00A0), (0x1680, 0x1680),
   (0x2000, 0x200A), (0x2028, 0x2029), (0x202F, 0x202F), (0x205F, 0x205F), (0x3000, 0x3000)]

/-- Whether a character is blank. -/
def isBlank (c : Char) : Bool :=
  blankRanges.any fun range => range.1 ≤ c.toNat && c.toNat ≤ range.2

/-- The number of blanks that a text starts with. -/
def leadingBlanks (text : List Char) : Nat :=
  (text.takeWhile isBlank).length

/-- A text without the blanks that it starts with. -/
def dropBlanks (text : List Char) : List Char :=
  text.dropWhile isBlank

/-- A text without the blanks that it ends with. -/
def trimEnd (text : String) : String :=
  String.ofList (dropBlanks text.toList.reverse).reverse

/-- The ranges hold twenty-five characters. -/
example : (blankRanges.map fun range => range.2 + 1 - range.1).sum = 25 := by decide

theorem leadingBlanks_add_length (text : List Char) :
    leadingBlanks text + (dropBlanks text).length = text.length := by
  have h := congrArg List.length (List.takeWhile_append_dropWhile (p := isBlank) (l := text))
  simpa only [leadingBlanks, dropBlanks, List.length_append] using h

end Scriptlet.Text
