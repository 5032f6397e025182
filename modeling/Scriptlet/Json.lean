/-!
# JSON

A JSON value as this library writes it: no fractions and no truth values, and objects keep the
order of their members. `Json.write` is one printer for both layouts, which differ only in what a
`Layout` says: where a new line starts, and what follows a colon.
-/

namespace Scriptlet

/-- A JSON value. -/
inductive Json where
  | null
  | number (value : Nat)
  | string (value : String)
  | array (items : List Json)
  | object (members : List (String × Json))

namespace Json

/-- The hexadecimal digit of a number below sixteen, in lower case. -/
def hexDigit (value : Nat) : Char :=
  if value < 10 then Char.ofNat ('0'.toNat + value) else Char.ofNat ('a'.toNat + (value - 10))

/-- A character inside a string. The quote, the backslash and the control characters below the
space are escaped, by a letter where there is one; nothing else is. -/
def escape (c : Char) : String :=
  match c with
  | '"' => "\\\""
  | '\\' => "\\\\"
  | '\n' => "\\n"
  | '\r' => "\\r"
  | '\t' => "\\t"
  | '\x08' => "\\b"
  | '\x0c' => "\\f"
  | c =>
    if c.toNat < 0x20 then
      String.ofList ['\\', 'u', '0', '0', hexDigit (c.toNat / 16), hexDigit (c.toNat % 16)]
    else
      String.singleton c

/-- A string with its quotes, behind the text `before`. -/
def writeString (before value : String) : String :=
  (value.toList.foldl (fun text c => text ++ escape c) (before.push '"')).push '"'

/-- What sets the parts of a JSON text apart. -/
structure Layout where
  /-- What starts a line at a depth: behind a text, the text and the start of the line. -/
  line : Nat → String → String
  /-- What stands between a key and its value. -/
  colon : String

/-- No spaces and no lines. -/
def Layout.compact : Layout where
  line _ before := before
  colon := ":"

/-- A line for each item, two spaces deeper than what holds it. -/
def Layout.indented : Layout where
  line depth before := (before.push '\n').pushn ' ' (2 * depth)
  colon := ": "

mutual
/-- A value at a depth, behind the text `before`. -/
def write (layout : Layout) (depth : Nat) (before : String) : Json → String
  | null => before ++ "null"
  | number value => before ++ toString value
  | string value => writeString before value
  | array [] => before ++ "[]"
  | array (item :: rest) =>
    let first := write layout (depth + 1) (layout.line (depth + 1) (before.push '[')) item
    (layout.line depth (writeItems layout (depth + 1) first rest)).push ']'
  | object [] => before ++ "\x7b\x7d"
  | object ((key, value) :: rest) =>
    let first :=
      write layout (depth + 1)
        (writeString (layout.line (depth + 1) (before.push '\x7b')) key ++ layout.colon) value
    (layout.line depth (writeMembers layout (depth + 1) first rest)).push '\x7d'

/-- The further items of an array, behind the text `before`. -/
def writeItems (layout : Layout) (depth : Nat) (before : String) : List Json → String
  | [] => before
  | item :: rest =>
    writeItems layout depth (write layout depth (layout.line depth (before.push ',')) item) rest

/-- The further members of an object, behind the text `before`. -/
def writeMembers (layout : Layout) (depth : Nat) (before : String) :
    List (String × Json) → String
  | [] => before
  | (key, value) :: rest =>
    writeMembers layout depth
      (write layout depth
        (writeString (layout.line depth (before.push ',')) key ++ layout.colon) value) rest
end

/-- A value without spaces. -/
def compact (value : Json) : String :=
  value.write .compact 0 ""

/-- A value on indented lines. -/
def indented (value : Json) : String :=
  value.write .indented 0 ""

end Json

end Scriptlet
