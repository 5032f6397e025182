import Scriptlet.Parse.Level

/-!
# Chains

A chain is what follows the first part of an expression: accesses to fields and indices, calls,
and at its end a comma with the rest of a sequence, where the mode allows one. It stops before a
semicolon, a closing bracket, the end of the text, and a comma that belongs to a list.
-/

namespace Scriptlet.Level

open Scriptlet.Parser

/-- The arguments of a call after its opening bracket. -/
def arguments (below : Level) : Parser (List Slot) :=
  separated (below.slot .item) .argumentSeparator

/-- One step of a chain that starts at `start` and has come to `node`. Every node that it makes
spans from `start`, which lies before `node` when the chain starts with a group. -/
def link (below : Level) (start : Nat) (mode : Mode) (node : Expr) :
    Parser (Round Expr Expr) := do
  match ← peek? with
  | none => return .done node
  | some token =>
    match token.kind with
    | .semicolon | .closeRound | .closeSquare | .closeCurly => return .done node
    | .comma =>
      if mode.stopAtComma then
        return .done node
      else
        take token
        let right ← below.expr mode
        return .done (.sequence node right (← spanFrom start))
    | .field =>
      take token
      return .again (.field node token.text (← spanFrom start))
    | .openSquare =>
      take token
      let index ← below.slot .plain
      let _ ← expect .closeSquare .indexClose
      return .again (.index node index (← spanFrom start))
    | .openRound =>
      take token
      let arguments ← below.arguments
      return .again (.call node arguments (← spanFrom start))
    | .assign =>
      if mode.allowDefault then
        match node with
        | .name name =>
          take token
          let source ← below.slot .item
          return .again (.assign (.name name) source (← spanFrom start))
        | _ => unexpected .plainNameBeforeDefault token
      else
        unexpected .chainEnd token
    | _ => unexpected .chainEnd token

/-- The chain that starts at `start` with `node`. -/
def chain (below : Level) (start : Nat) (mode : Mode) (node : Expr) : Parser Expr :=
  repeated (below.link start mode) node

end Scriptlet.Level
