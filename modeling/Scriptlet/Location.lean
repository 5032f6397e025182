/-!
# Lines and columns

A location names a place in a text by line and column, both counted from one. Only a line feed
ends a line; every other character, a carriage return included, takes one column.
-/

namespace Scriptlet

/-- A line and a column, both counted from one. -/
structure Location where
  line : Nat
  column : Nat
deriving DecidableEq, Repr, Inhabited

namespace Location

/-- Where every text starts. -/
def first : Location :=
  ⟨1, 1⟩

/-- The location after a character that stands at `place`. -/
def after (place : Location) (c : Char) : Location :=
  if c = '\n' then ⟨place.line + 1, 1⟩ else ⟨place.line, place.column + 1⟩

/-- The location of an offset in a text; an offset past the end is located at the end. -/
def ofOffset (text : List Char) (offset : Nat) : Location :=
  (text.take offset).foldl after first

@[simp] theorem ofOffset_zero (text : List Char) : ofOffset text 0 = first := rfl

end Location

end Scriptlet
