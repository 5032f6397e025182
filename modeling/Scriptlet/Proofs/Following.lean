import Mathlib
import Scriptlet.Proofs.Completeness

/-!
# What follows an expression

An expression takes all that it can go on with: where it stops, nothing is next that a chain goes on
with, but the end of the text, a semicolon, a closing bracket, or, for an item of a list, a comma.
The source of an assignment is read as such an item, so a chain that has come to an assignment is
done, unless a comma follows and makes a sequence of it.
-/

namespace Scriptlet

open Scriptlet.Parser

/-- The kinds of the tokens that a chain takes and goes on behind. -/
def Kind.isLinking : Kind → Bool
  | .field | .openSquare | .openRound | .assign => true
  | _ => false

namespace Mode

/-- No expression stops before what a chain goes on with. -/
theorem isLinking_eq_false {mode : Mode} {kind : Kind} (h : mode.stopsBefore kind = true) :
    kind.isLinking = false := by
  rcases mode.stopsBefore_iff.1 h with rfl | rfl | rfl | rfl | ⟨rfl, -⟩ <;> rfl

/-- Where an item of a list stops, an expression of any mode does, but for a comma. -/
theorem stopsBefore_of_item {kind : Kind} (h : item.stopsBefore kind = true) (mode : Mode) :
    mode.stopsBefore kind = true ∨ (kind = .comma ∧ mode.stopAtComma = false) := by
  rcases item.stopsBefore_iff.1 h with rfl | rfl | rfl | rfl | ⟨rfl, -⟩
  case inr.inr.inr.inr =>
    cases hstop : mode.stopAtComma
    · exact .inr ⟨rfl, rfl⟩
    · exact .inl hstop
  all_goals exact .inl rfl

end Mode

namespace Level

variable {below : Level} {mode : Mode} {start : Nat} {node : Expr}

/-- A chain that has come to a node where the parse is can only stop there or meet a comma. -/
structure Closes (below : Level) (node : Expr) (state : ParseState) : Prop where
  follows : state.place.Follows .item
  /-- The chain gives the node and takes nothing, unless a comma is next that it makes a sequence
  with. -/
  done_or_comma (start : Nat) (mode : Mode) :
    below.chain start mode node state = .ok node state ∨
      (mode.stopAtComma = false ∧ ∃ comma, state.place.Next comma ∧ comma.kind = .comma)

/-- What a level leaves behind the expressions that it reads from a state on. -/
structure LeavesFollow (level : Level) (state : ParseState) : Prop where
  /-- Behind an expression stands what may follow it. -/
  expr {mode expr stop} : level.expr mode state = .ok expr stop →
    stop.place.Follows mode ∧ ∀ token, stop.place.Next token → token.kind.isLinking = false
  /-- So it does behind a chain, whatever it starts with. -/
  chain {start mode node expr stop} : level.chain start mode node state = .ok expr stop →
    stop.place.Follows mode ∧ ∀ token, stop.place.Next token → token.kind.isLinking = false
  /-- A default value closes its chain. -/
  fallback {start mode node target source span stop} :
    level.link start mode node state = .ok (.again (.assign target source span)) stop →
      level.Closes (.assign target source span) stop
  /-- An object that a pattern takes apart closes the chain that starts with it. -/
  unpacking {brace target source span stop} :
    state.place.Next brace → brace.kind = .openCurly →
      level.object brace state = .ok (.assign target source span) stop →
        level.Closes (.assign target source span) stop

/-- A chain stops where its mode lets it, and leaves the state as it is. -/
theorem chain_run_of_follows {state : ParseState} (h : state.place.Follows mode) :
    below.chain start mode node state = .ok node state := by
  show rounds (below.link start mode) state.cursor.rest node state = _
  rw [rounds_run, link_run_of_follows h]

theorem Closes.of_follows {state : ParseState} (h : state.place.Follows .item) (node : Expr) :
    below.Closes node state where
  follows := h
  done_or_comma start mode := by
    rcases h with hended | ⟨token, hnext, hstops⟩
    · exact .inl (chain_run_of_follows (.inl hended))
    · rcases Mode.stopsBefore_of_item hstops mode with hmode | ⟨hkind, hcomma⟩
      · exact .inl (chain_run_of_follows (.inr ⟨token, hnext, hmode⟩))
      · exact .inr ⟨hcomma, token, hnext, hkind⟩

end Level

theorem Place.Follows.isLinking_eq_false {here : Place} {mode : Mode} (h : here.Follows mode)
    (token : Token) (hnext : here.Next token) : token.kind.isLinking = false :=
  Mode.isLinking_eq_false (h.stopsBefore hnext)

/-- In whatever state a parse is, what a level leaves behind an expression may follow it: the end of
the text, a semicolon, a closing bracket, or a comma where the mode stops at one. -/
theorem leavesFollow_ofHeight (height : Nat) (state : ParseState) :
    (Level.ofHeight height).LeavesFollow state := by
  have hsound := sound_ofHeight height
  have hopens := Phrases.opens_ofHeight height
  constructor
  case expr =>
    intro mode expr stop hrun
    obtain ⟨-, -, -, hfollows⟩ := hsound.expr ⟨state, stop, rfl, rfl, hrun⟩
    exact ⟨hfollows, hfollows.isLinking_eq_false⟩
  case chain =>
    intro start mode node expr stop hrun
    obtain ⟨-, -, -, hfollows⟩ := hsound.chain hopens ⟨state, stop, rfl, rfl, hrun⟩
    exact ⟨hfollows, hfollows.isLinking_eq_false⟩
  case fallback =>
    intro start mode node target source span stop hrun
    -- Of what a round goes on with, only a default value is an assignment.
    rcases hsound.link hopens ⟨state, stop, rfl, rfl, hrun⟩ with
      ⟨_, _, hround, _⟩ | ⟨next, _, hround, _, hlink⟩ | ⟨_, _, _, _, _, _, _, _, _, _, hfollows⟩
    · cases hround
    · cases hround
      cases hlink
    · exact .of_follows hfollows _
  case unpacking =>
    intro brace target source span stop hbrace hkind hrun
    rcases hsound.object hopens hbrace hkind ⟨state, stop, rfl, rfl, hrun⟩ with
      ⟨_, _, hobject⟩ | ⟨_, _, _, _, _, _, _, _, _, _, _, hfollows, _⟩
    · cases hobject
    · exact .of_follows hfollows _

/-- An object that a pattern takes apart, here an arrow function, stops at the comma behind the
function's body. -/
theorem leavesFollow_ofHeight_unpacking :
    let state := ParseState.start "\x7ba\x7d = (b) => b.c, d)".toList
    let brace : Token := ⟨.openCurly, "\x7b", ⟨0, 1⟩⟩
    let pattern : Binding := .pattern [⟨⟨"a", ⟨1, 1⟩⟩, .name ⟨"a", ⟨1, 1⟩⟩, ⟨1, 1⟩⟩] ⟨0, 3⟩
    let body : Slot := ⟨.field (.name ⟨"b", ⟨13, 1⟩⟩) "c" ⟨13, 3⟩, ⟨13, 3⟩⟩
    let source : Slot :=
      ⟨.arrow ⟨[⟨.name ⟨"b", ⟨7, 1⟩⟩, none, ⟨7, 1⟩⟩], ⟨6, 3⟩⟩ (.expression body) ⟨6, 10⟩, ⟨6, 10⟩⟩
    ∃ stop,
      (Level.ofHeight 2).object brace state = .ok (.assign pattern source ⟨0, 16⟩) stop ∧
      stop.place.Next ⟨.comma, ",", ⟨16, 1⟩⟩ ∧
      (Level.ofHeight 2).Closes (.assign pattern source ⟨0, 16⟩) stop := by
  intro state brace pattern body source
  have hvalue : (match (Level.ofHeight 2).object brace state with
      | .ok expr stop => some (expr, stop.place)
      | .error _ _ => none) =
      some (.assign pattern source ⟨0, 16⟩, ⟨⟨16, ", d)".toList⟩, 16⟩) := by cbv
  cases hrun : (Level.ofHeight 2).object brace state with
  | error failure stop =>
    rw [hrun] at hvalue
    cases hvalue
  | ok expr stop =>
    rw [hrun] at hvalue
    obtain ⟨rfl, hplace⟩ := Prod.mk.inj (Option.some.inj hvalue)
    refine ⟨stop, rfl, ?_, (leavesFollow_ofHeight 2 state).unpacking rfl rfl hrun⟩
    rw [hplace]
    rfl

end Scriptlet
