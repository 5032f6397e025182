import Scriptlet.Number.Numeral

/-!
# Numbers in binary64

The number that a numeral stands for, in the 64-bit binary format: the nearest one, and of two
that are equally near the one whose last bit is zero. The arithmetic is exact, on fractions of
natural numbers.

A positive finite number of the format is `significand` times `2 ^ unit`, where `unit` is at least
`-1074` and, unless it is `-1074`, the significand has 53 bits. Its bits, read as a natural number,
are then `(unit + 1074) * 2 ^ 52 + significand`; a significand that was rounded up to 54 bits gives
the next number by the same sum, and one past the largest gives infinity.
-/

namespace Scriptlet

/-- A number of the 64-bit binary format, as its bits. -/
structure Binary64 where
  bits : UInt64
deriving DecidableEq, Repr

namespace Binary64

/-- The bits of positive infinity. -/
def infinityBits : Nat :=
  0x7FF0000000000000

/-- The bit that negates a number. -/
def signBit : Nat :=
  0x8000000000000000

/-- What is no number. -/
def nan : Binary64 :=
  ⟨0x7FF8000000000000⟩

/-- Whether a value of the format is no number. -/
def isNaN (x : Binary64) : Bool :=
  infinityBits < x.bits.toNat % signBit

/-- The whole number nearest to a fraction; of two that are equally near, the even one. -/
def roundToEven (numerator denominator : Nat) : Nat :=
  let quotient := numerator / denominator
  let remainder := numerator % denominator
  if 2 * remainder < denominator then quotient
  else if denominator < 2 * remainder then quotient + 1
  else quotient + quotient % 2

/-- A fraction divided by a power of two, as a fraction. -/
def scaled (numerator denominator : Nat) (power : Int) : Nat × Nat :=
  (numerator <<< (-power).toNat, denominator <<< power.toNat)

/-- The power of two at or below a positive fraction. -/
def floorLog2 (numerator denominator : Nat) : Int :=
  let estimate : Int := numerator.log2 - denominator.log2
  let (top, bottom) := scaled numerator denominator estimate
  if bottom ≤ top then estimate else estimate - 1

/-- The bits of the number nearest to a positive fraction. -/
def nearestBits (numerator denominator : Nat) : Nat :=
  let unit := max (-1074) (floorLog2 numerator denominator - 52)
  let (top, bottom) := scaled numerator denominator unit
  min infinityBits ((unit + 1074).toNat <<< 52 + roundToEven top bottom)

/-- The bits of the number nearest to `mantissa` times ten to the power of `exponent`. Powers that
lie far outside the format are not multiplied out. -/
def decimalBits (mantissa : Nat) (exponent : Int) : Nat :=
  if mantissa = 0 then 0
  else if exponent < -(mantissa.log2 + 400 : Int) then 0
  else if 400 < exponent then infinityBits
  else nearestBits (mantissa * Nat.pow 10 exponent.toNat) (Nat.pow 10 (-exponent).toNat)

/-- The bits of a magnitude. -/
def magnitudeBits : Magnitude → Nat
  | .finite mantissa exponent => decimalBits mantissa exponent
  | .infinite => infinityBits
  | .notANumber => nan.bits.toNat

/-- The number nearest to a numeral. -/
def ofNumeral (numeral : Numeral) : Binary64 :=
  ⟨.ofNat ((if numeral.negative then signBit else 0) + magnitudeBits numeral.magnitude)⟩

/-- The number that a text stands for; what is no numeral is no number. -/
def ofText (text : String) : Binary64 :=
  match Numeral.ofText? text with
  | some numeral => ofNumeral numeral
  | none => nan

end Binary64

end Scriptlet
