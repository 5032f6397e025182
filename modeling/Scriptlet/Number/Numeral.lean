/-!
# Numerals

A numeral is the text of a number: an optional sign and then either a name of infinity or of what
is no number, or digits with an optional point, of which at least one is on either side, and an
optional exponent of ten. `Numeral.ofText?` reads one; nothing may stand before it or behind it.
-/

namespace Scriptlet

/-- What a numeral stands for, apart from its sign. -/
inductive Magnitude where
  /-- `mantissa` times ten to the power of `exponent`. -/
  | finite (mantissa : Nat) (exponent : Int)
  | infinite
  | notANumber
deriving DecidableEq, Repr

/-- A numeral as it was read. -/
structure Numeral where
  negative : Bool
  magnitude : Magnitude
deriving DecidableEq, Repr

namespace Numeral

/-- The number that decimal digits stand for. -/
def digitsValue (digits : List Char) : Nat :=
  digits.foldl (fun value c => 10 * value + (c.toNat - '0'.toNat)) 0

/-- Takes a sign from the front of a text; `true` stands for a minus. -/
def takeSign : List Char → Bool × List Char
  | '-' :: rest => (true, rest)
  | '+' :: rest => (false, rest)
  | text => (false, text)

/-- Takes the digits behind a point from the front of a text. -/
def takeFraction : List Char → List Char × List Char
  | '.' :: rest => rest.span Char.isDigit
  | text => ([], text)

/-- The exponent that is all of a text: nothing, or a letter `e`, a sign and digits. -/
def exponent? : List Char → Option Int
  | [] => some 0
  | c :: rest =>
    let (negative, digits) := takeSign rest
    if c.toLower = 'e' ∧ digits ≠ [] ∧ digits.all Char.isDigit then
      some (if negative then -(digitsValue digits : Int) else digitsValue digits)
    else
      none

/-- The number in digits that is all of a text. -/
def finite? (text : List Char) : Option Magnitude :=
  let (whole, rest) := text.span Char.isDigit
  let (fraction, rest) := takeFraction rest
  if whole.isEmpty && fraction.isEmpty then
    none
  else
    (exponent? rest).map fun exponent =>
      .finite (digitsValue (whole ++ fraction)) (exponent - fraction.length)

/-- The magnitude that is all of a text. Names are read in either case. -/
def magnitude? (text : List Char) : Option Magnitude :=
  match String.ofList (text.map Char.toLower) with
  | "inf" => some .infinite
  | "infinity" => some .infinite
  | "nan" => some .notANumber
  | _ => finite? text

/-- The numeral that is all of a text. -/
def ofText? (text : String) : Option Numeral :=
  let (negative, rest) := takeSign text.toList
  (magnitude? rest).map fun magnitude => ⟨negative, magnitude⟩

end Numeral

end Scriptlet
