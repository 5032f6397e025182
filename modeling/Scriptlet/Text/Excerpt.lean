/-!
# Excerpts

A report quotes a little of the text it is about. `lineExcerpt` quotes the rest of a line, and
`surroundingExcerpt` a window around an offset with its line feeds shown as spaces; so neither
holds a line feed, and each has a fixed greatest length.
-/

namespace Scriptlet.Text

/-- At most twenty characters from `offset` on, up to the end of the line. -/
def lineExcerpt (text : List Char) (offset : Nat) : String :=
  String.ofList (((text.drop offset).takeWhile (· ≠ '\n')).take 20)

/-- The eight characters before `offset` and the sixteen from it on, as far as the text has them,
with a space for each line feed. -/
def surroundingExcerpt (text : List Char) (offset : Nat) : String :=
  String.ofList (((text.take (offset + 16)).drop (offset - 8)).map
    fun c => if c = '\n' then ' ' else c)

theorem length_lineExcerpt_le (text : List Char) (offset : Nat) :
    (lineExcerpt text offset).length ≤ 20 := by
  simp only [lineExcerpt, String.length_ofList, List.length_take]
  omega

theorem length_surroundingExcerpt_le (text : List Char) (offset : Nat) :
    (surroundingExcerpt text offset).length ≤ 24 := by
  simp only [surroundingExcerpt, String.length_ofList, List.length_map, List.length_drop,
    List.length_take]
  omega

end Scriptlet.Text
