import Scriptlet.Proofs.Soundness

/-!
# Progress

Every loop of the grammar takes a token in each round but the last. What a level gives is derived
from the tokens that it takes, so the rounds of a chain and the items of a list leave less text.
-/

namespace Scriptlet

open Scriptlet.Parser

/-- What a level can give is derived by some phrases, which start as phrases do. -/
def Level.Grammatical (level : Level) : Prop :=
  ∃ phrases : Phrases, level.Sound phrases ∧ phrases.Opens

/-- Every level of the grammar is grammatical. -/
theorem grammatical_ofHeight (height : Nat) : (Level.ofHeight height).Grammatical :=
  ⟨.ofHeight height, sound_ofHeight height, Phrases.opens_ofHeight height⟩

variable {here there : Place}

/-- A token that is taken if it is of a kind leaves less text. -/
theorem length_lt_of_next? {kind : Kind} {token : Token}
    (h : (next? kind).CanGive here (some token) there) :
    there.cursor.rest.length < here.cursor.rest.length := by
  rcases h.next? with ⟨_, hsome, hnext, -, rfl⟩ | ⟨hnone, -⟩
  · exact hnext.length_lt
  · cases hnone

theorem length_le_of_declaredName {expectation : Expectation} {name : Name}
    (h : (Level.declaredName expectation).CanGive here name there) :
    there.cursor.rest.length ≤ here.cursor.rest.length := by
  obtain ⟨tokens, hreads, -⟩ := Level.Sound.declaredName h
  exact hreads.length_le

namespace Level.Grammatical

variable {below : Level} (h : below.Grammatical)

include h

theorem length_lt_of_statement {statement : Statement}
    (hgiven : below.statement.CanGive here statement there) :
    there.cursor.rest.length < here.cursor.rest.length := by
  obtain ⟨phrases, hsound, hopens⟩ := h
  obtain ⟨tokens, hreads, hderived, -⟩ := hsound.statement hgiven
  exact hreads.length_lt (hopens.statement hderived).ne_nil

theorem length_le_of_slot {mode : Mode} {slot : Slot}
    (hgiven : (below.slot mode).CanGive here slot there) :
    there.cursor.rest.length ≤ here.cursor.rest.length := by
  obtain ⟨phrases, hsound, hopens⟩ := h
  obtain ⟨tokens, hreads, -⟩ := hsound.slot hopens hgiven
  exact hreads.length_le

/-- A round that makes a chain longer takes what it adds. -/
theorem advances_link (start : Nat) (mode : Mode) : Advances (below.link start mode) := by
  obtain ⟨phrases, hsound, hopens⟩ := h
  intro node next here there hround
  rcases hsound.link hopens hround with
    ⟨_, _, hdone, -⟩ | ⟨_, tokens, -, hreads, hlink⟩ | ⟨_, assign, tokens, _, -, -, -, hreads, -⟩
  · cases hdone
  · exact hreads.length_lt hlink.ne_nil
  · exact hreads.length_lt (List.cons_ne_nil _ _)

theorem length_lt_of_objectField? {field : ObjectField}
    (hgiven : below.objectField?.CanGive here (some field) there) :
    there.cursor.rest.length < here.cursor.rest.length := by
  obtain ⟨phrases, hsound, hopens⟩ := h
  rcases hsound.objectField? hopens hgiven with
    ⟨_, hnone, -⟩ | ⟨_, tokens, middle, -, -, hreads, hfield, hbehind⟩
  · cases hnone
  · have hlt := hreads.length_lt hfield.ne_nil
    rcases hbehind with ⟨comma, hcomma, -, rfl⟩ | ⟨close, -, -, rfl⟩
    · exact Nat.lt_trans hcomma.length_lt hlt
    · exact hlt

/-- A statement of a block leaves less text. -/
theorem length_lt_of_blockStatement? {statement : Statement}
    (hgiven : Parser.CanGive (do
      if (← next? .closeCurly).isSome then return none else return some (← below.statement)) here
      (some statement) there) :
    there.cursor.rest.length < here.cursor.rest.length := by
  obtain ⟨close?, _, hclose, hrest⟩ := hgiven.bind
  rcases hclose.next? with ⟨close, rfl, -⟩ | ⟨rfl, rfl, -⟩
  · cases hrest.pure.1
  · obtain ⟨_, _, hstatement, hrest⟩ := hrest.bind
    obtain ⟨-, rfl⟩ := hrest.pure
    exact h.length_lt_of_statement hstatement

/-- A statement of a program leaves less text. -/
theorem length_lt_of_statement? {statement : Statement}
    (hgiven : Parser.CanGive (do if ← atEnd then return none else return some (← below.statement))
      here (some statement) there) :
    there.cursor.rest.length < here.cursor.rest.length := by
  obtain ⟨ended, _, hended, hrest⟩ := hgiven.bind
  obtain ⟨-, rfl⟩ := hended.atEnd
  split at hrest
  · cases hrest.pure.1
  · obtain ⟨_, _, hstatement, hrest⟩ := hrest.bind
    obtain ⟨-, rfl⟩ := hrest.pure
    exact h.length_lt_of_statement hstatement

end Level.Grammatical

end Scriptlet
