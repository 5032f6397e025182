import Scriptlet.Error.SyntaxError
import Scriptlet.Location
import Scriptlet.Text.Blank

/-!
# Diagnostics

A diagnostic is a syntax error as a person reads it: with lines and columns for offsets, and a note
for the statement that the error lies in, unless the error lies at its start. `render` lays it out
under the path of its file.
-/

namespace Scriptlet

/-- A remark about a second place. -/
structure Note where
  message : String
  place : Location
deriving DecidableEq, Repr

/-- An error with its places in lines and columns. -/
structure Diagnostic where
  code : String
  message : String
  offset : Nat
  place : Location
  excerpt : String
  notes : List Note
deriving DecidableEq, Repr

/-- The remarks on a syntax error: where its statement starts, if that is another place. -/
def SyntaxError.notes (error : SyntaxError) (text : List Char) : List Note :=
  match error.statement with
  | some start =>
    if start = error.offset then []
    else [⟨"in the statement starting here", Location.ofOffset text start⟩]
  | none => []

/-- A syntax error as a diagnostic of the text that it was found in. -/
def SyntaxError.toDiagnostic (error : SyntaxError) (text : List Char) : Diagnostic where
  code := error.kind.code
  message := error.kind.label ++ ": " ++ error.message
  offset := error.offset
  place := Location.ofOffset text error.offset
  excerpt := error.excerpt
  notes := error.notes text

namespace Diagnostic

/-- A place in a file, as `path:line:column`. -/
def placeIn (path : String) (place : Location) : String :=
  path ++ ":" ++ toString place.line ++ ":" ++ toString place.column

/-- The lines of a diagnostic, each with its line feed. -/
def lines (path : String) (diagnostic : Diagnostic) : List String :=
  ["error[" ++ diagnostic.code ++ "] " ++ placeIn path diagnostic.place ++ " " ++
    diagnostic.message ++ "\n"] ++
  (if diagnostic.excerpt.isEmpty then [] else ["  near: `" ++ diagnostic.excerpt ++ "`\n"]) ++
  diagnostic.notes.map fun note =>
    "  note: " ++ note.message ++ " at " ++ placeIn path note.place ++ "\n"

/-- A diagnostic as text, without the blanks at its end. -/
def render (path : String) (diagnostic : Diagnostic) : String :=
  Text.trimEnd (String.join (diagnostic.lines path))

end Diagnostic

/-- A syntax error as text, under the path of its file. -/
def SyntaxError.render (error : SyntaxError) (path : String) (text : List Char) : String :=
  (error.toDiagnostic text).render path

end Scriptlet
