import Mathlib
import Scriptlet.Proofs.Proceeding
import Scriptlet.Proofs.Reports
import Scriptlet.Proofs.Wrapping

/-!
# The states of a parse

Between two operations a parse is in order: the cursor stands in the text, at a character that is no
blank or at the end; the last token taken stops at the cursor or before it, with nothing but blanks
between; and no more levels are open than may be. Where a parse starts all this holds, and every
step keeps it. So it holds of every state that a function of the parser is called in and of every
state that one ends in. What a function opens it closes, whether it gives a value or fails.
-/

namespace Scriptlet

open Scriptlet.Parser

namespace ParseState

variable {limit : Nat} {text : List Char} {state stop : ParseState}

/-- The states that a parse of a text can come to. -/
def Reachable (state : ParseState) (text : List Char) : Prop :=
  Relation.ReflTransGen (Step nestingLimit) (.start text) state

/-- The parsers that are asked in a state: with so many levels below them as may still be opened. -/
def level (state : ParseState) : Level :=
  .ofHeight (nestingLimit - state.depth)

/-- The state is as a parse of the text leaves it between two operations. -/
structure InOrder (state : ParseState) (text : List Char) : Prop where
  cursor_eq : state.cursor = .ofOffset text state.cursor.offset
  offset_le : state.cursor.offset ≤ text.length
  unblank : ∀ c ∈ text[state.cursor.offset]?, Text.isBlank c = false
  /-- The last token taken is the one before the cursor; before the first one this is zero. -/
  lastStop_eq : state.lastStop = stopOf (tokensTaken state.journal)
  lastStop_le : state.lastStop ≤ state.cursor.offset
  blanks : ∀ c ∈ (Span.between state.lastStop state.cursor.offset).chars text,
    Text.isBlank c = true
  depth_le : state.depth ≤ nestingLimit

/-! ## What a step keeps -/

/-- The tokens taken lead to where the parse is, behind every step. -/
theorem Step.reading (h : state.Step limit stop) (hreading : state.Reading text) :
    stop.Reading text := by
  cases h with
  | took hnext => exact hreading.took hnext
  | noted hevent => exact hreading.noted hevent
  | entered | left => exact hreading

/-- No step opens more levels than may be open. -/
theorem Step.depth_le (h : state.Step limit stop) (hle : state.depth ≤ limit) :
    stop.depth ≤ limit := by
  cases h with
  | took | noted => exact hle
  | entered hlt => exact hlt
  | left => exact Nat.le_trans (Nat.sub_le _ _) hle

theorem Reachable.reading (h : state.Reachable text) : state.Reading text := by
  induction h with
  | refl => exact .nil _
  | tail _ hstep ih => exact hstep.reading ih

theorem Reachable.depth_le (h : state.Reachable text) : state.depth ≤ nestingLimit := by
  induction h with
  | refl => exact Nat.zero_le _
  | tail _ hstep ih => exact hstep.depth_le ih

/-- Where the last of the tokens that lead to a place stops, the place says. -/
theorem Reading.lastStop_eq (h : state.Reading text) :
    state.lastStop = stopOf (tokensTaken state.journal) := by
  unfold Reading at h
  generalize tokensTaken state.journal = taken at h ⊢
  by_cases hnil : taken = []
  · subst hnil
    exact congrArg Place.lastStop (Reads.nil_iff.1 h)
  · exact h.lastStop_eq hnil

/-- A parse that has read a text up to a place is in order there. -/
theorem Reading.inOrder (h : state.Reading text) (hle : state.depth ≤ nestingLimit) :
    state.InOrder text := by
  have hof : state.place.Of text := h.of (Place.start_of text)
  have hunblank : state.place.Unblank := h.unblank (Cursor.unblank_skipBlanks _ _)
  have hcursor : state.cursor = .ofOffset text state.cursor.offset := hof.cursor.eq_ofOffset
  refine ⟨hcursor, hof.cursor.offset_le, ?_, h.lastStop_eq, hof.lastStop_le, hof.blanks, hle⟩
  have hrest : state.cursor.rest = text.drop state.cursor.offset := congrArg Cursor.rest hcursor
  rw [← List.head?_drop, ← hrest]
  exact hunblank

theorem Reachable.inOrder (h : state.Reachable text) : state.InOrder text :=
  h.reading.inOrder h.depth_le

/-! ## Calls -/

/-- A function that is called goes step by step, and leaves as many levels open as it found. -/
theorem Reachable.leads (h : state.Reachable text) {α : Type} {parser : Parser α}
    (hcall : state.level.Call state.place parser) :
    state.Leads nestingLimit (finish (parser state)) := by
  have hleads := hcall.leads (grammatical_ofHeight _) (resolute_ofHeight _) (proceeds_ofHeight _)
  rwa [Nat.add_sub_cancel' h.depth_le] at hleads

end ParseState

open ParseState in
/-- A parse of a text goes step by step from its start, and every state that it can come to is in
order. So is the state that any function of the parser ends in when it is called in such a state,
whether it gives a value or fails, and as many levels are open in the one state as in the other. -/
theorem Program.parse_inOrder (text : List Char) :
    (finish (parseWithin nestingLimit text)).Reachable text ∧
    (∀ state : ParseState, state.Reachable text → state.InOrder text) ∧
    ∀ state : ParseState, state.Reachable text → ∀ {α : Type} (parser : Parser α),
      state.level.Call state.place parser →
        (finish (parser state)).Reachable text ∧ (finish (parser state)).InOrder text ∧
          (finish (parser state)).depth = state.depth := by
  have hcalled {state : ParseState} (hstate : state.Reachable text) {α : Type}
      {parser : Parser α} (hcall : state.level.Call state.place parser) :
      (finish (parser state)).Reachable text :=
    hstate.trans (hstate.leads hcall).steps
  refine ⟨?_, fun state hstate => hstate.inOrder, fun state hstate _ parser hcall => ?_⟩
  · have hstart : (ParseState.start text).Reachable text := .refl
    exact hcalled hstart .statements
  · exact ⟨hcalled hstate hcall, (hcalled hstate hcall).inOrder, (hstate.leads hcall).depth_eq⟩

open ParseState in
/-- In a group a call, in the call an object, in the object a group that nothing closes: it fails four
levels below the outer group, and the one level that was open before it is open behind it. -/
theorem Program.parse_inOrder_group :
    let text := "(f(\x7bb: (;".toList
    let state := ((ParseState.start text).noted (.opened .expression 0)).atDepth 1
    let bracket : Token := ⟨.openRound, "(", ⟨0, 1⟩⟩
    state.Reachable text ∧ state.level.Call state.place (state.level.group bracket .plain) ∧
      ∃ failure stop, state.level.group bracket .plain state = .error failure stop ∧
        failure.offset = 8 ∧ stop.InOrder text ∧ stop.depth = 1 := by
  intro text state bracket
  have hreachable : state.Reachable text :=
    (Relation.ReflTransGen.single (.noted rfl)).tail (.entered (by decide))
  have hcall : state.level.Call state.place (state.level.group bracket .plain) :=
    .group .plain rfl rfl
  obtain ⟨-, hinOrder, hdepth⟩ := (Program.parse_inOrder text).2.2 state hreachable _ hcall
  have hfails : (match state.level.group bracket .plain state with
      | .error failure _ => failure.offset
      | .ok _ _ => 0) = 8 := by decide +kernel
  refine ⟨hreachable, hcall, ?_⟩
  cases hrun : state.level.group bracket .plain state with
  | error failure stop =>
    rw [hrun] at hinOrder hdepth hfails
    exact ⟨failure, stop, rfl, hfails, hinOrder, hdepth⟩
  | ok value stop =>
    rw [hrun] at hfails
    cases hfails

end Scriptlet
