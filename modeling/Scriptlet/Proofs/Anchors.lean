import Mathlib
import Scriptlet.Proofs.Consumption
import Scriptlet.Proofs.Failures
import Scriptlet.Proofs.Places
import Scriptlet.Proofs.Placement
import Scriptlet.Proofs.Rebinding
import Scriptlet.Proofs.Sources

/-!
# Where the grammar fails

Every failure of the grammar is anchored: reading comes to the place that it tells of, and what it
says is so there. The scanner has a fault there, the text ends, the token there is refused, or a
construct starts there with no level left. Nearly all failures are those of the place where a parser
is. The others tell of a part that is read again and binds nothing; that part is a node, and nodes
start where tokens start.
-/

namespace Scriptlet

open Scriptlet.Parser

variable {origin here there : Place} {tokens : List Token} {token : Token} {cause : Cause}

/-! ## Places that reading comes to -/

/-- Reading leads from one place to another. -/
def Place.Reaches (origin here : Place) : Prop :=
  ∃ tokens, Reads origin tokens here

theorem Reads.reaches (h : Reads origin tokens here) : origin.Reaches here :=
  ⟨tokens, h⟩

namespace Place.Reaches

theorem refl (here : Place) : here.Reaches here :=
  ⟨[], .nil here⟩

theorem trans (h : origin.Reaches here) (hmore : here.Reaches there) : origin.Reaches there := by
  obtain ⟨tokens, hreads⟩ := h
  obtain ⟨more, hmore⟩ := hmore
  exact ⟨tokens ++ more, hreads.append hmore⟩

theorem past (h : origin.Reaches here) (hnext : here.Next token) :
    origin.Reaches (here.past token) :=
  h.trans (Reads.single hnext).reaches

end Place.Reaches

/-! ## Anchored failures -/

/-- What a cause says is so at a place. -/
inductive Cause.At (there : Place) : Cause → Prop where
  | fault {fault : Fault} :
      there.cursor.peek = .error ⟨.fault fault, there.cursor.offset, none⟩ → At there (.fault fault)
  | endOfInput : there.Ended → At there .endOfInput
  | unexpected {token : Token} (expectation : Expectation) :
      there.Next token → At there (.unexpected expectation token)
  | unsupportedStatement {token : Token} :
      there.Next token → At there (.unsupportedStatement token.text)
  | tooDeep (levels : Nat) : At there (.tooDeep levels)
  | notRebindable {token : Token} (cause : RebindCause) :
      there.Next token → At there (.notRebindable cause)
  | reservedName {token : Token} : there.Next token → At there (.reservedName token.text)

/-- Reading from a place comes to where a failure is, and its cause is there. The statement that it
names starts no later. -/
structure Failure.Anchored (origin : Place) (failure : Failure) : Prop where
  there : ∃ there, origin.Reaches there ∧ failure.offset = there.cursor.offset ∧
    failure.cause.At there
  statement : ∀ begin, failure.statement = some begin → begin ≤ failure.offset

namespace Failure.Anchored

/-- A failure that names no statement is anchored where its cause is. -/
theorem of_at (hreach : origin.Reaches there) (hcause : cause.At there) :
    Anchored origin ⟨cause, there.cursor.offset, none⟩ :=
  ⟨⟨there, hreach, rfl, hcause⟩, fun _ hnone => nomatch hnone⟩

/-- It may tell of the token at that place. -/
theorem of_next (hreach : origin.Reaches there) (hnext : there.Next token)
    (hcause : cause.At there) : Anchored origin ⟨cause, token.span.offset, none⟩ :=
  hnext.offset_eq ▸ of_at hreach hcause

variable {failure : Failure}

/-- What is anchored behind a place is anchored behind every earlier one. -/
theorem before (hreach : origin.Reaches here) (h : failure.Anchored here) :
    failure.Anchored origin := by
  obtain ⟨⟨there, hthere, hat⟩, hstatement⟩ := h
  exact ⟨⟨there, hreach.trans hthere, hat⟩, hstatement⟩

theorem le_offset (h : failure.Anchored here) : here.cursor.offset ≤ failure.offset := by
  obtain ⟨⟨there, ⟨_, hreads⟩, hoffset, -⟩, -⟩ := h
  exact hoffset ▸ hreads.offset_le

/-- What is anchored behind the start of a statement is anchored as part of the statement. -/
theorem inStatement (h : failure.Anchored here) :
    (failure.inStatement here.cursor.offset).Anchored here := by
  have hle := h.le_offset
  unfold Failure.inStatement
  split
  · exact h
  · exact ⟨h.there, fun begin hbegin => Option.some.inj hbegin ▸ hle⟩

end Failure.Anchored

/-- Where reading comes to, looking for a token fails anchored. -/
theorem Place.Reaches.describes (h : origin.Reaches here) :
    here.Describes (Failure.Anchored origin) where
  fault hpeek := by
    obtain ⟨fault, rfl⟩ := Cursor.peek_eq_error hpeek
    exact .of_at h (.fault hpeek)
  ended hended := .of_at h (.endOfInput hended)
  unexpected expectation hnext := .of_next h hnext (.unexpected expectation hnext)

/-! ## Parts that bind nothing -/

mutual
/-- The parts of an expression that bind nothing are nodes of it. -/
theorem Expr.violation_on : ∀ {expr : Expr}, (Node.expr expr).All (Node.Placed tokens) →
    ∀ violation ∈ expr.violations, violation.span.On tokens
  | .name _, _ => by simp [Expr.violations]
  | .object fields _, h => ObjectField.violation_on fields (List.forall_mem_map.1 h.children)
  | .string _ _, h | .number _ _, h | .field _ _ _, h | .index _ _ _, h | .call _ _ _, h
  | .sequence _ _ _, h | .assign _ _ _, h | .arrow _ _ _, h =>
      List.forall_mem_singleton.2 h.here.span

theorem ObjectField.violation_on : ∀ fields : List ObjectField,
    (∀ field ∈ fields, (Node.field field).All (Node.Placed tokens)) →
      ∀ violation ∈ ObjectField.violations fields, violation.span.On tokens
  | [], _ => by simp [ObjectField.violations]
  | ⟨key, ⟨value, _⟩, _⟩ :: rest, h => by
      obtain ⟨hfield, hrest⟩ := List.forall_mem_cons.1 h
      obtain ⟨hkey, hslot⟩ := forall_mem_pair.1 hfield.children
      have hkeys : ∀ violation ∈ key.violations, violation.span.On tokens := by
        cases key with
        | name => exact List.forall_mem_nil _
        | string | number | computed => exact List.forall_mem_singleton.2 hkey.here.span
      have hvalue := Expr.violation_on (hslot.children (.expr value) (List.mem_singleton.2 rfl))
      exact List.forall_mem_append.2
        ⟨hkeys, List.forall_mem_append.2 ⟨hvalue, ObjectField.violation_on rest hrest⟩⟩
end

/-- The part of an object literal that keeps it from being a pattern is a node of it. -/
theorem Expr.toBinding_error_on {expr : Expr} {violation : Violation}
    (h : expr.toBinding = .error violation) (hexpr : (Node.expr expr).All (Node.Placed tokens)) :
    violation.span.On tokens :=
  Expr.violation_on hexpr violation
    (List.mem_of_mem_head? ((expr.toBinding_stopsAtFirst.error_iff violation).1 h))

/-- The part of a group that keeps it from being parameters is a node of its content. -/
theorem Expr.toParameters_error_on {content : Expr} {span : Span} {violation : Violation}
    (h : content.toParameters span = .error violation)
    (hcontent : (Node.expr content).All (Node.Placed tokens)) : violation.span.On tokens := by
  have hfirst := ((content.toParameters_stopsAtFirst span).error_iff violation).1 h
  obtain ⟨element, helement, hviolation⟩ := List.mem_flatMap.1 (List.mem_of_mem_head? hfirst)
  unfold Expr.parameterViolations at hviolation
  split at hviolation
  · cases hviolation
  · exact Expr.violation_on (Expr.all_elements hcontent element helement) violation hviolation

/-- A part that binds nothing is refused after the tokens that it stands on have been read. -/
theorem Failure.Anchored.of_violation {violation : Violation} (hreads : Reads here tokens there)
    (hspan : violation.span.On tokens) :
    Anchored here ⟨.notRebindable violation.cause, violation.span.offset, none⟩ := by
  obtain ⟨first, hfirst, hoffset⟩ := hspan.starts
  obtain ⟨before, after, rfl⟩ := List.append_of_mem hfirst
  obtain ⟨middle, hbefore, hafter⟩ := Reads.append_iff.1 hreads
  have hnext := (Reads.cons_iff.1 hafter).1
  rw [hoffset]
  exact .of_next hbefore.reaches hnext (.notRebindable _ hnext)

/-! ## The grammar -/

/-- What a level fails with is anchored behind where the level is asked. -/
structure Level.Anchors (level : Level) : Prop where
  expr (mode : Mode) (here : Place) : (level.expr mode).FailsOnly here (Failure.Anchored here)
  statement (here : Place) : level.statement.FailsOnly here (Failure.Anchored here)

/-- What a level gives stands where reading its tokens leads, and its trees are placed on these. -/
structure Level.Reading (level : Level) (phrases : Phrases) : Prop where
  sound : level.Sound phrases
  opens : phrases.Opens
  places : phrases.Places

theorem reading_ofHeight (height : Nat) :
    (Level.ofHeight height).Reading (.ofHeight height) :=
  ⟨sound_ofHeight height, Phrases.opens_ofHeight height, Phrases.places_ofHeight height⟩

variable {below : Level} {phrases : Phrases} {mode : Mode} {start : Nat} {node : Expr}

namespace Level.Reading

variable (hreading : below.Reading phrases)

include hreading

theorem grammatical : below.Grammatical :=
  ⟨phrases, hreading.sound, hreading.opens⟩

theorem reaches_slot {slot : Slot} (h : (below.slot mode).CanGive here slot there) :
    here.Reaches there := by
  obtain ⟨_, hreads, -⟩ := hreading.sound.slot hreading.opens h
  exact hreads.reaches

theorem reaches_block {block : List Statement × Span} (h : below.block.CanGive here block there) :
    here.Reaches there := by
  obtain ⟨_, hreads, -⟩ := hreading.sound.block h
  exact hreads.reaches

theorem reaches_statement {statement : Statement}
    (h : below.statement.CanGive here statement there) : here.Reaches there := by
  obtain ⟨_, hreads, -⟩ := hreading.sound.statement h
  exact hreads.reaches

theorem reaches_blockStatement? {statement : Statement}
    (h : Parser.CanGive (do
      if (← next? .closeCurly).isSome then return none else return some (← below.statement)) here
      (some statement) there) : here.Reaches there := by
  obtain ⟨close?, _, hclose, hrest⟩ := h.bind
  rcases hclose.next? with ⟨close, rfl, -⟩ | ⟨rfl, rfl, -⟩
  · cases hrest.pure.1
  · obtain ⟨_, _, hstatement, hrest⟩ := hrest.bind
    obtain ⟨-, rfl⟩ := hrest.pure
    exact hreading.reaches_statement hstatement

/-- A round that makes a chain longer leads behind what it adds. -/
theorem reaches_link {next : Expr}
    (h : (below.link start mode node).CanGive here (.again next) there) : here.Reaches there := by
  rcases hreading.sound.link hreading.opens h with
    ⟨_, _, hdone, -⟩ | ⟨_, _, -, hreads, -⟩ | ⟨_, _, _, _, -, -, -, hreads, -⟩
  · cases hdone
  · exact hreads.reaches
  · exact hreads.reaches

theorem reaches_objectField? {field : ObjectField}
    (h : below.objectField?.CanGive here (some field) there) : here.Reaches there := by
  rcases hreading.sound.objectField? hreading.opens h with
    ⟨_, hnone, -⟩ | ⟨_, _, _, -, -, hreads, -, hbehind⟩
  · cases hnone
  · rcases hbehind with ⟨comma, hcomma, -, rfl⟩ | ⟨_, -, -, rfl⟩
    · exact hreads.reaches.past hcomma
    · exact hreads.reaches

theorem reaches_statementBody {statement : Statement}
    (h : below.statementBody.CanGive here statement there) : here.Reaches there := by
  obtain ⟨_, hreads, -⟩ := hreading.sound.statementBody hreading.opens h
  exact hreads.reaches

end Level.Reading

theorem reaches_declaredName {expectation : Expectation} {name : Name}
    (h : (Level.declaredName expectation).CanGive here name there) : here.Reaches there := by
  obtain ⟨_, hreads, -⟩ := Level.Sound.declaredName h
  exact hreads.reaches

namespace Level.Anchors

open FailsOnly

variable (hanchors : below.Anchors) (hreading : below.Reading phrases)

/-! ### Slots, blocks and chains -/

section

include hanchors

theorem expr_from (hreach : origin.Reaches here) (mode : Mode) :
    (below.expr mode).FailsOnly here (Failure.Anchored origin) :=
  (hanchors.expr mode here).imp fun _ => .before hreach

theorem statement_from (hreach : origin.Reaches here) :
    below.statement.FailsOnly here (Failure.Anchored origin) :=
  (hanchors.statement here).imp fun _ => .before hreach

theorem slot (hreach : origin.Reaches here) (mode : Mode) :
    (below.slot mode).FailsOnly here (Failure.Anchored origin) :=
  bind_offset (bind (hanchors.expr_from hreach mode) fun _ => make)

include hreading

theorem block (hreach : origin.Reaches here) :
    below.block.FailsOnly here (Failure.Anchored origin) := by
  refine bind_expect hreach.describes fun brace hnext _ => bind ?_ fun _ => make
  refine many origin.Reaches hreading.grammatical.length_lt_of_blockStatement? ?_
    (fun hreached hgiven => hreached.trans (hreading.reaches_blockStatement? hgiven))
    (hreach.past hnext)
  exact fun hreached => bind_next? hreached.describes
    (bind (hanchors.statement_from hreached) fun _ => pure _) fun _ _ _ => pure _

theorem arguments (hreach : origin.Reaches here) :
    below.arguments.FailsOnly here (Failure.Anchored origin) :=
  separated origin.Reaches hreading.grammatical.length_le_of_slot
    Place.Reaches.describes (fun hreached => hanchors.slot hreached .item)
    (fun hreached hgiven => hreached.trans (hreading.reaches_slot hgiven))
    Place.Reaches.past hreach

theorem link (hreach : origin.Reaches here) (start : Nat) (mode : Mode) (node : Expr) :
    (below.link start mode node).FailsOnly here (Failure.Anchored origin) := by
  refine bind_peek? hreach.describes (fun _ => pure _) fun token hnext => ?_
  have hpast := hreach.past hnext
  dsimp only
  split
  · exact pure _
  · exact pure _
  · exact pure _
  · exact pure _
  · split
    · exact pure _
    · exact bind_take (bind (hanchors.expr_from hpast mode) fun _ => make)
  · exact bind_take make
  · refine bind_take (bind (hanchors.slot hpast .plain) fun hslot => ?_)
    exact bind_expect (hpast.trans (hreading.reaches_slot hslot)).describes fun _ _ _ => make
  · exact bind_take (bind (hanchors.arguments hreading hpast) fun _ => make)
  · split
    · split
      · exact bind_take (bind (hanchors.slot hpast .item) fun _ => make)
      · exact unexpected hreach.describes hnext _
    · exact unexpected hreach.describes hnext _
  · exact unexpected hreach.describes hnext _

theorem chain (hreach : origin.Reaches here) (start : Nat) (mode : Mode) (node : Expr) :
    (below.chain start mode node).FailsOnly here (Failure.Anchored origin) :=
  repeated (fun _ => origin.Reaches) (hreading.grammatical.advances_link start mode)
    (fun hreached => hanchors.link hreading hreached start mode _)
    (fun hreached hround => hreached.trans (hreading.reaches_link hround)) hreach

/-! ### Object literals -/

/-- A key, whose first token is taken already. -/
theorem objectKey (hreach : origin.Reaches here) (hfirst : here.Next token) :
    (below.objectKey token).FailsOnly (here.past token) (Failure.Anchored origin) := by
  have hpast := hreach.past hfirst
  unfold Level.objectKey
  split
  · refine bind (hanchors.slot hpast .plain) fun hslot => ?_
    exact bind_expect (hpast.trans (hreading.reaches_slot hslot)).describes fun _ _ _ => pure _
  · exact pure _
  · exact pure _
  · exact pure _
  · exact unexpected hreach.describes hfirst _

omit hanchors hreading in
theorem shorthand? (hreach : origin.Reaches here) (key : ObjectKey) :
    (Level.shorthand? key).FailsOnly here (Failure.Anchored origin) := by
  unfold Level.shorthand?
  split
  · refine bind_peek hreach.describes fun token _ => ?_
    split <;> exact pure _
  · exact pure _

theorem objectField (hreach : origin.Reaches here) :
    below.objectField.FailsOnly here (Failure.Anchored origin) := by
  refine bind_next hreach.describes fun first hfirst => ?_
  refine bind (hanchors.objectKey hreading hreach hfirst) fun hkey => ?_
  obtain ⟨_, hreads, -⟩ := hreading.sound.objectKey hreading.opens hfirst hkey
  have hbehind := hreach.trans hreads.reaches
  refine bind (shorthand? hbehind _) fun {value? _} hvalue => ?_
  obtain ⟨-, rfl⟩ := canGive_shorthand? hvalue
  cases value? with
  | some value => exact make
  | none =>
      refine bind_expect hbehind.describes fun colon hcolon _ => ?_
      exact bind (hanchors.slot (hbehind.past hcolon) .item) fun _ => make

theorem objectField? (hreach : origin.Reaches here) :
    below.objectField?.FailsOnly here (Failure.Anchored origin) := by
  refine bind_next? hreach.describes ?_ fun _ _ _ => pure _
  refine bind (hanchors.objectField hreading hreach) fun hfield => ?_
  obtain ⟨_, hreads, -⟩ := hreading.sound.objectField hreading.opens hfield
  have hbehind := (hreach.trans hreads.reaches).describes
  refine bind_peek hbehind fun token hnext => ?_
  split
  · exact bind_take (pure _)
  · exact pure _
  · exact bind (unexpected hbehind hnext _) fun _ => pure _

/-- An object literal that is read again fails where a part of it binds nothing. -/
theorem object (hreach : origin.Reaches here) (hbrace : here.Next token)
    (hkind : token.kind = .openCurly) :
    (below.object token).FailsOnly here (Failure.Anchored origin) := by
  refine bind_take (bind ?_ fun {fields _} hfields => bind_spanFrom ?_)
  · exact many origin.Reaches hreading.grammatical.length_lt_of_objectField?
      (fun hreached => hanchors.objectField? hreading hreached)
      (fun hreached hgiven => hreached.trans (hreading.reaches_objectField? hgiven))
      (hreach.past hbrace)
  obtain ⟨tokens, _, close, hreads, hderived, hclose, hcloseKind, rfl⟩ :=
    hreading.sound.fields hreading.opens hfields
  have hliteral := Reads.cons hbrace (hreads.append (.single hclose))
  have hplaced := (Phrases.IsObject.intro hkind hderived hcloseKind).placed hreading.places
    hreading.opens hliteral.ordered.1
  have hbehind := hreach.trans hliteral.reaches
  rw [hliteral.lastStop_eq (List.cons_ne_nil _ _)]
  refine bind_next? hbehind.describes (pure _) fun assign hassign _ => ?_
  refine bind_rebound (fun violation hviolation => ?_) fun target _ => ?_
  · exact .before hreach (.of_violation hliteral (Expr.toBinding_error_on hviolation hplaced))
  · exact bind (hanchors.slot (hbehind.past hassign) .item) fun _ => make

/-! ### Groups and arrow functions -/

theorem arrowFunction (hreach : origin.Reaches here) (harrow : here.Next token)
    (parameters : Parameters) (mode : Mode) :
    (below.arrowFunction parameters token mode).FailsOnly here (Failure.Anchored origin) := by
  have hpast := hreach.past harrow
  have hslot : (do
      let body ← below.slot mode.value
      return Expr.arrow parameters (.expression body)
        (← spanFrom parameters.span.offset)).FailsOnly (here.past token)
          (Failure.Anchored origin) :=
    bind (hanchors.slot hpast _) fun _ => make
  refine bind_take (bind_peek? hpast.describes (fun _ => hslot) fun next _ => ?_)
  dsimp only
  split
  · refine bind (hanchors.block hreading hpast) fun hblock => bind_spanFrom ?_
    exact hanchors.chain hreading (hpast.trans (hreading.reaches_block hblock)) _ _ _
  · exact hslot

theorem emptyGroup (hreach : origin.Reaches here) (group : Span) (mode : Mode) :
    (below.emptyGroup group mode).FailsOnly here (Failure.Anchored origin) := by
  refine bind_peek hreach.describes fun arrow harrow => ?_
  split
  · exact hanchors.arrowFunction hreading hreach harrow _ mode
  · exact unexpected hreach.describes harrow _

/-- A group that is read again fails where a part of it binds nothing. -/
theorem filledGroup (hreach : origin.Reaches here) {content : Expr} {group : Span}
    (hcontent : ∀ violation, content.toParameters group = .error violation →
      Failure.Anchored origin ⟨.notRebindable violation.cause, violation.span.offset, none⟩)
    (mode : Mode) :
    (below.filledGroup content group mode).FailsOnly here (Failure.Anchored origin) := by
  have hchain := hanchors.chain hreading hreach group.offset mode content
  refine bind_peek? hreach.describes (fun _ => hchain) fun next hnext => ?_
  split
  · next hsome =>
    obtain rfl := Option.some.inj hsome
    refine bind_rebound hcontent fun parameters _ => ?_
    exact hanchors.arrowFunction hreading hreach hnext parameters mode
  · exact hchain

theorem group (hreach : origin.Reaches here) (hbracket : here.Next token) (mode : Mode) :
    (below.group token mode).FailsOnly here (Failure.Anchored origin) := by
  have hpast := hreach.past hbracket
  refine bind_take (bind_next? hpast.describes ?_ fun close hclose _ => ?_)
  · refine bind (hanchors.expr_from hpast .group) fun {content _} hcontent => ?_
    obtain ⟨tokens, hreads, hexpr, -⟩ := hreading.sound.expr hcontent
    have hbehind := hpast.trans hreads.reaches
    refine bind_expect hbehind.describes fun close hclose _ => ?_
    refine hanchors.filledGroup hreading (hbehind.past hclose) (fun violation hviolation => ?_) mode
    have hplaced := hreading.places.expr hexpr hreads.ordered.1
    exact .before hpast (.of_violation hreads (Expr.toParameters_error_on hviolation hplaced))
  · exact hanchors.emptyGroup hreading (hpast.past hclose) _ mode

/-! ### Expressions and statements -/

theorem expression (hreach : origin.Reaches here) (mode : Mode) :
    (below.expression mode).FailsOnly here (Failure.Anchored origin) := by
  refine bind_peek hreach.describes fun token hnext => ?_
  have hchain (node : Expr) : (do
      take token
      below.chain token.span.offset mode node).FailsOnly here (Failure.Anchored origin) :=
    bind_take (hanchors.chain hreading (hreach.past hnext) _ mode node)
  dsimp only
  split
  · exact hchain _
  · exact hchain _
  · exact hchain _
  · next hkind =>
    refine bind (hanchors.object hreading hreach hnext hkind) fun hobject => ?_
    refine hanchors.chain hreading (hreach.trans ?_) _ mode _
    rcases hreading.sound.object hreading.opens hnext hkind hobject with
      ⟨_, hreads, -⟩ | ⟨_, _, _, _, _, _, hreads, -⟩ <;> exact hreads.reaches
  · exact hanchors.group hreading hreach hnext mode
  · exact unexpected hreach.describes hnext _

omit hanchors hreading in
theorem declaredName (hreach : origin.Reaches here) (expectation : Expectation) :
    (Level.declaredName expectation).FailsOnly here (Failure.Anchored origin) := by
  refine bind_next hreach.describes fun token hnext => ?_
  split
  · split
    · exact fail (.of_next hreach hnext (.reservedName hnext))
    · exact pure _
  · exact unexpected hreach.describes hnext _

theorem initializer? (hreach : origin.Reaches here) (modifier : Modifier) :
    (below.initializer? modifier).FailsOnly here (Failure.Anchored origin) := by
  refine bind_next hreach.describes fun token hnext => ?_
  have hpast := hreach.past hnext
  split
  · refine bind (hanchors.slot hpast .plain) fun hslot => ?_
    exact bind_expect (hpast.trans (hreading.reaches_slot hslot)).describes fun _ _ _ => pure _
  · split
    · exact unexpected hreach.describes hnext _
    · split
      · exact pure _
      · exact unexpected hreach.describes hnext _

theorem variableDeclaration (hreach : origin.Reaches here) (hnext : here.Next token)
    (modifier : Modifier) :
    (below.variableDeclaration token modifier).FailsOnly here (Failure.Anchored origin) := by
  have hpast := hreach.past hnext
  refine bind_take (bind (declaredName hpast _) fun hname => ?_)
  have hbehind := hpast.trans (reaches_declaredName hname)
  exact bind (hanchors.initializer? hreading hbehind modifier) fun _ => bind_note make

theorem functionDeclaration (hreach : origin.Reaches here) (hnext : here.Next token) :
    (below.functionDeclaration token).FailsOnly here (Failure.Anchored origin) := by
  have hpast := hreach.past hnext
  refine bind_take (bind (declaredName hpast _) fun hname => ?_)
  have hbehind := hpast.trans (reaches_declaredName hname)
  refine bind_expect hbehind.describes fun bracket hbracket _ => ?_
  have hinside := hbehind.past hbracket
  refine bind ?_ fun hparameters => ?_
  · exact separated origin.Reaches length_le_of_declaredName Place.Reaches.describes
      (fun hreached => declaredName hreached _)
      (fun hreached hgiven => hreached.trans (reaches_declaredName hgiven))
      Place.Reaches.past hinside
  · obtain ⟨_, hreads, -⟩ :=
      Phrases.Closed.of_separated Phrases.IsName Level.Sound.declaredName hparameters
    exact bind (hanchors.block hreading (hinside.trans hreads.reaches)) fun _ => bind_note make

theorem expressionStatement (hreach : origin.Reaches here) :
    below.expressionStatement.FailsOnly here (Failure.Anchored origin) := by
  refine bind (hanchors.slot hreach .plain) fun hslot => ?_
  exact bind_expect (hreach.trans (hreading.reaches_slot hslot)).describes fun _ _ _ => pure _

theorem statementBody (hreach : origin.Reaches here) :
    below.statementBody.FailsOnly here (Failure.Anchored origin) := by
  have hexpression := hanchors.expressionStatement hreading hreach
  refine bind_peek hreach.describes fun token hnext => ?_
  split
  · split
    · exact hanchors.variableDeclaration hreading hreach hnext _
    · split
      · exact hanchors.functionDeclaration hreading hreach hnext
      · split
        · exact fail (.of_next hreach hnext (.unsupportedStatement hnext))
        · exact hexpression
  · exact hexpression

end

end Level.Anchors

/-- A statement and its redundant semicolons fail anchored when the statement does. -/
theorem Parser.FailsOnly.terminated {body : Parser Statement}
    (hbody : body.FailsOnly here (Failure.Anchored here))
    (hgiven : ∀ {statement there}, body.CanGive here statement there → here.Reaches there) :
    (Level.terminated body).FailsOnly here (Failure.Anchored here) := by
  refine .bind_offset (.bind (.inStatement ?_) fun hstatement => .bind ?_ fun _ => .pure _)
  · exact hbody.construct.imp fun _ hfailure => hfailure.inStatement
  · refine .many here.Reaches length_lt_of_next?
      (fun hreached => .next? hreached.describes.fault) (fun hreached hsemicolon => ?_)
      (hgiven hstatement.inStatement.construct)
    rcases hsemicolon.next? with ⟨_, -, hnext, -, rfl⟩ | ⟨hnone, -⟩
    · exact hreached.past hnext
    · cases hnone

/-- A level above one that fails anchored fails so too. -/
theorem Level.Anchors.above (hanchors : below.Anchors) (hreading : below.Reading phrases) :
    below.above.Anchors where
  expr mode here := .construct (.within (hanchors.expression hreading (.refl here) mode))
  statement here := .terminated (.within (hanchors.statementBody hreading (.refl here)))
    fun hgiven => hreading.reaches_statementBody hgiven.within

/-- Every level fails anchored: the lowest where it is asked. -/
theorem anchors_ofHeight (height : Nat) : (Level.ofHeight height).Anchors := by
  induction height with
  | zero =>
      have hdeep {α : Type} (here : Place) :
          (tooDeep : Parser α).FailsOnly here (Failure.Anchored here) :=
        .tooDeep fun levels => .of_at (.refl here) (.tooDeep levels)
      exact ⟨fun _ here => (hdeep here).construct,
        fun here => .terminated (hdeep here) fun hgiven => hgiven.tooDeep.elim⟩
  | succ height ih => exact ih.above (reading_ofHeight height)

/-- A run over a text that fails is anchored in the text. -/
theorem anchored_of_parseWithin {limit : Nat} {text : List Char} {failure : Failure}
    {stop : ParseState} (h : parseWithin limit text = .error failure stop) :
    failure.Anchored (.start text) := by
  have hanchors := anchors_ofHeight limit
  have hreading := reading_ofHeight limit
  have hstatements : (Level.ofHeight limit).statements.FailsOnly (.start text)
      (Failure.Anchored (.start text)) := by
    refine .many (Place.start text).Reaches
      hreading.grammatical.length_lt_of_statement? (fun hreached => ?_)
      (fun hreached hgiven => ?_) (.refl _)
    · refine .bind_atEnd ?_
      split
      · exact .pure _
      · exact .bind (hanchors.statement_from hreached) fun _ => .pure _
    · rcases canGive_statement? hgiven with ⟨_, -, hstatement⟩ | ⟨hnone, -⟩
      · exact hreached.trans (hreading.reaches_statement hstatement)
      · cases hnone
  exact hstatements (.start text) failure stop rfl h

end Scriptlet
