import Scriptlet.Proofs.Composition
import Scriptlet.Proofs.Consumption

/-!
# The bound on nesting

The number of levels decides nothing but when a parse gives up. A run with fewer levels goes as a
run with more, unless it fails because a construct starts where nothing may open any more. Every run
leaves the levels that it enters, so a run that fails for that reason holds as many open statements
and expressions as there are levels.
-/

namespace Scriptlet

open Scriptlet.Parser

/-! ## Runs with more levels -/

/-- Two runs at the same place of a text, of which the first may give up for want of levels. -/
def Simulation.bounded : Simulation where
  state left right := left.place = right.place ∧ left.depth = right.depth
  start := Eq
  stop := Eq
  span := Eq
  failure := Eq
  gaveUp failure := ∃ levels, failure.cause = .tooDeep levels

namespace Simulation

theorem bounded_peeks {left right : ParseState} (h : bounded.state left right) :
    bounded.Peeks left right := by
  obtain ⟨hplace, hdepth⟩ := h
  have hcursor : left.cursor = right.cursor := congrArg Place.cursor hplace
  cases hpeek : left.cursor.peek with
  | error failure => exact .fault hpeek (hcursor ▸ hpeek) rfl
  | ok next? =>
      cases next? with
      | none =>
          have hended : left.place.Ended := hpeek
          refine .ended hended (hplace ▸ hended) ?_
          rw [hcursor]
          rfl
      | some token =>
          have hnext : left.place.Next token := hpeek
          refine .next ⟨hnext, hplace ▸ hnext, ⟨rfl, rfl, rfl⟩, ?_, hdepth⟩
          show left.place.past token = right.place.past token
          rw [hplace]

theorem bounded_lawful : bounded.Lawful := by
  constructor
  case depth_eq => exact fun hstate => hstate.2
  case atDepth => exact fun _ hstate => ⟨hstate.1, rfl⟩
  case noted => exact fun _ _ hstate => hstate
  case peeks => exact bounded_peeks
  case offset => exact fun hstate => congrArg (fun here : Place => here.cursor.offset) hstate.1
  case lastStop => exact fun hstate => congrArg Place.lastStop hstate.1
  case span_offset => exact fun hspan => congrArg Span.offset hspan
  case span_stop => exact fun hspan => congrArg Span.stop hspan
  case between =>
    rintro start _ stop _ rfl rfl
    rfl
  case refused =>
    rintro cause cause' offset _ hcause rfl
    rw [hcause.eq fun _ _ hspan => hspan]
    rfl
  case inStatement =>
    rintro failure _ start _ rfl rfl
    rfl
  case gaveUp_inStatement =>
    rintro ⟨cause, offset, statement⟩ start ⟨levels, hcause⟩
    refine ⟨levels, ?_⟩
    cases statement <;> exact hcause

/-- A level with fewer levels below it goes as one with more, as far as it does not give up. -/
theorem levels_of_le {height more : Nat} (hle : height ≤ more) :
    bounded.Levels (.ofHeight height) (.ofHeight more) := by
  induction height generalizing more with
  | zero =>
      exact ⟨fun {_ left _} _ => .gaveUp ⟨left.depth, rfl⟩,
        fun {left _} _ => .gaveUp ⟨left.depth, rfl⟩⟩
  | succ height ih =>
      cases more with
      | zero => exact absurd hle (Nat.not_succ_le_zero height)
      | succ more =>
          exact (ih (Nat.le_of_succ_le_succ hle)).above bounded_lawful
            (grammatical_ofHeight height) (grammatical_ofHeight more)

end Simulation

/-! ## What is open -/

/-- So many constructs are open, and one more starts where the failure is. -/
def Failure.AtLimit (failure : Failure) (height : Nat) (opened : List (Construct × Nat)) : Prop :=
  ∃ construct outer, opened = (construct, failure.offset) :: outer ∧ outer.length = height

/-- The end of a run with so many levels below it. What the run has opened is complete if it gives a
value. If it fails for want of levels, it has opened as many constructs as there are levels, and one
more at the cursor. -/
inductive Balanced (height : Nat) (start : ParseState) {α : Type} :
    EStateM.Result Failure ParseState α → Prop where
  | ok {value stop} :
      stop.depth = start.depth →
      Event.openConstructs stop.journal = Event.openConstructs start.journal →
      Balanced height start (.ok value stop)
  | error {failure stop} (inner) :
      stop.depth = start.depth →
      Event.openConstructs stop.journal = inner ++ Event.openConstructs start.journal →
      (∀ levels, failure.cause = .tooDeep levels →
        levels = start.depth + height ∧ failure.offset = stop.cursor.offset ∧
          failure.AtLimit height inner) →
      Balanced height start (.error failure stop)

/-- Every run of a parser with so many levels below it is balanced. -/
def Parser.Balances {α : Type} (parser : Parser α) (height : Nat) : Prop :=
  ∀ start, Balanced height start (parser start)

namespace Balanced

variable {α β : Type} {height : Nat} {start : ParseState}

/-- A run that goes on from a state where the same is open ends as from there. -/
theorem of_reached {reached : ParseState} {outcome : EStateM.Result Failure ParseState α}
    (hdepth : reached.depth = start.depth)
    (hopen : Event.openConstructs reached.journal = Event.openConstructs start.journal)
    (h : Balanced height reached outcome) : Balanced height start outcome := by
  cases h with
  | ok hdepth' hopen' => exact .ok (hdepth'.trans hdepth) (hopen'.trans hopen)
  | error inner hdepth' hopen' hlimit =>
      exact .error inner (hdepth'.trans hdepth) (hopen ▸ hopen') (hdepth ▸ hlimit)

/-- A failure for another reason opens nothing. -/
theorem fail {failure : Failure} (h : ∀ levels, failure.cause ≠ .tooDeep levels) :
    Balanced height start (.error failure start : EStateM.Result Failure ParseState α) :=
  .error [] rfl rfl fun levels hcause => absurd hcause (h levels)

end Balanced

namespace Parser.Balances

variable {α β : Type} {height : Nat}

theorem bind {first : Parser α} {rest : α → Parser β} (hfirst : first.Balances height)
    (hrest : ∀ value, (rest value).Balances height) : (first >>= rest).Balances height := by
  intro start
  rw [bind_run]
  have hstart := hfirst start
  cases hrun : first start with
  | ok value reached =>
      rw [hrun] at hstart
      cases hstart with
      | ok hdepth hopen => exact .of_reached hdepth hopen (hrest value reached)
  | error failure stop =>
      rw [hrun] at hstart
      cases hstart with
      | error inner hdepth hopen hlimit => exact .error inner hdepth hopen hlimit

theorem pure (value : α) : (Pure.pure value : Parser α).Balances height :=
  fun _ => .ok rfl rfl

/-- Looking at the next token opens nothing. -/
theorem peek? : Parser.peek?.Balances height := by
  intro start
  rw [peek?_run]
  cases hpeek : start.cursor.peek with
  | ok token => exact .ok rfl rfl
  | error failure =>
      obtain ⟨fault, rfl⟩ := Cursor.peek_eq_error hpeek
      exact .fail fun _ hcause => nomatch hcause

/-- A loop opens nothing that its rounds leave open. -/
theorem repeated {step : α → Parser (Round α β)} (hadvances : Advances step) {value : α}
    (hfirst : (step value).Balances height)
    (hnext : ∀ {value next here there}, (step value).CanGive here (.again next) there →
      (step next).Balances height) :
    (repeated step value).Balances height := by
  intro start
  induction hlength : start.cursor.rest.length using Nat.strongRecOn generalizing start value with
  | ind length ih =>
      rw [repeated_run hadvances]
      have hround := hfirst start
      cases hrun : step value start with
      | error failure stop =>
          rw [hrun] at hround
          cases hround with
          | error inner hdepth hopen hlimit => exact .error inner hdepth hopen hlimit
      | ok round reached =>
          rw [hrun] at hround
          cases hround with
          | ok hdepth hopen =>
              cases round with
              | done result => exact .ok hdepth hopen
              | again next =>
                  have hlt := hlength ▸ hadvances.length_lt hrun
                  exact .of_reached hdepth hopen
                    (ih _ hlt (hnext ⟨start, reached, rfl, rfl, hrun⟩) reached rfl)

theorem many {item? : Parser (Option α)}
    (hadvances : ∀ {here item there}, item?.CanGive here (some item) there →
      there.cursor.rest.length < here.cursor.rest.length)
    (hitem : item?.Balances height) : (Parser.many item?).Balances height := by
  have hlisting (items : List α) : (listing item? items).Balances height := by
    refine bind hitem fun item => ?_
    cases item <;> exact pure _
  exact repeated (advances_many hadvances) (hlisting []) fun _ => hlisting _

/-- A failure for want of levels is the same failure inside a statement. -/
theorem inStatement {parser : Parser α} (h : parser.Balances height) (begin : Nat) :
    (inStatement begin parser).Balances height := by
  intro start
  have hrun := h start
  unfold Parser.inStatement
  cases hrun' : parser start with
  | ok value stop =>
      rw [hrun'] at hrun
      exact hrun
  | error failure stop =>
      rw [hrun'] at hrun
      cases hrun with
      | error inner hdepth hopen hlimit =>
          obtain ⟨cause, offset, statement⟩ := failure
          refine .error inner hdepth hopen ?_
          cases statement <;> exact hlimit

/-- A construct that may hold nothing fails where it starts. -/
theorem construct_tooDeep (kind : Construct) :
    (construct kind (tooDeep : Parser α)).Balances 0 := by
  intro start
  refine .error [(kind, start.cursor.offset)] rfl rfl ?_
  intro levels hcause
  cases hcause
  exact ⟨rfl, rfl, kind, [], rfl, rfl⟩

/-- A construct is open while what it holds is read, one level deeper. -/
theorem construct_within {parser : Parser α} (h : parser.Balances height) (kind : Construct) :
    (construct kind (within parser)).Balances (height + 1) := by
  intro start
  let opened := start.noted (.opened kind start.cursor.offset)
  have hinner := h (opened.atDepth (opened.depth + 1))
  have hrun : construct kind (within parser) start =
      ((within parser >>= fun value => note .closed >>= fun _ => Pure.pure value) opened) := rfl
  rw [hrun, bind_run, within_run]
  cases hparser : parser (opened.atDepth (opened.depth + 1)) with
  | ok value reached =>
      rw [hparser] at hinner
      cases hinner with
      | ok hdepth hopen =>
          refine .ok ?_ ?_
          · show reached.depth - 1 = start.depth
            rw [hdepth]
            rfl
          · show (Event.openConstructs reached.journal).tail = _
            rw [hopen]
            rfl
  | error failure stop =>
      rw [hparser] at hinner
      cases hinner with
      | error inner hdepth hopen hlimit =>
          refine .error (inner ++ [(kind, start.cursor.offset)]) ?_ ?_ ?_
          · show stop.depth - 1 = start.depth
            rw [hdepth]
            rfl
          · show Event.openConstructs stop.journal = _
            rw [hopen, List.append_assoc]
            rfl
          · intro levels hcause
            obtain ⟨hlevels, hoffset, construct, outer, rfl, hlength⟩ := hlimit levels hcause
            refine ⟨?_, hoffset, construct, outer ++ [(kind, start.cursor.offset)], rfl, ?_⟩
            · rw [hlevels]
              show start.depth + 1 + height = start.depth + (height + 1)
              omega
            · rw [List.length_append, hlength]
              rfl

end Parser.Balances

/-- Composed parsers are balanced when the inner ones are. -/
theorem Composed.balances {inner : {α : Type} → Parser α → Prop} {height : Nat}
    (hinner : ∀ {α : Type} {parser : Parser α}, inner parser → parser.Balances height)
    {α : Type} {known : Known} {parser : Parser α} (h : Composed inner known parser) :
    parser.Balances height := by
  induction h with
  | inner h => exact hinner h
  | spanned make h =>
      exact .bind (fun _ => .ok rfl rfl) fun _ => .bind (hinner h) fun _ _ => .ok rfl rfl
  | pure value => exact .pure value
  | bind _ _ _ ihfirst ihrest => exact .bind ihfirst ihrest
  | atEnd _ _ ih => exact .bind (fun _ => .ok rfl rfl) ih
  | spanFrom => exact fun _ => .ok rfl rfl
  | note hevent =>
      intro start
      cases hevent <;> exact .ok rfl rfl
  | peek? _ _ _ _ ihnone ihsome =>
      refine .bind .peek? fun token => ?_
      cases token with
      | none => exact ihnone
      | some token => exact ihsome token
  | peek _ ih =>
      refine .bind (.bind .peek? fun token => ?_) ih
      cases token with
      | none => exact fun _ => .fail fun _ hcause => nomatch hcause
      | some token => exact fun _ => .ok rfl rfl
  | take _ ih => exact .bind (fun _ => .ok rfl rfl) fun _ => ih
  | failNext _ _ hcause | failBehind _ _ hcause =>
      cases hcause <;> exact fun _ => .fail fun _ hcause => nomatch hcause
  | repeated value hadvances _ _ _ ihfirst ihnext => exact .repeated hadvances ihfirst ihnext
  | unaware _ ih => exact ih

/-- What is composed of operations on tokens alone is balanced. -/
theorem Parser.Balances.of_composed {height : Nat} {α : Type} {known : Known} {parser : Parser α}
    (h : Composed (fun _ => False) known parser) : parser.Balances height :=
  h.balances False.elim

/-- A statement and its redundant semicolons are balanced when the statement is. -/
theorem Parser.Balances.terminated {height : Nat} {body : Parser Statement}
    (h : (construct .statement body).Balances height) :
    (Level.terminated body).Balances height :=
  .bind (fun _ => .ok rfl rfl) fun start =>
    .bind (h.inStatement start) fun _ => .bind (.of_composed .semicolons) fun _ => .pure _

/-- The parsers of a level are balanced. -/
structure Level.Balances (level : Level) (height : Nat) : Prop where
  expr (mode) : (level.expr mode).Balances height
  statement : level.statement.Balances height

namespace Level.Balances

variable {level : Level} {height : Nat}

theorem of_has (h : level.Balances height) {α : Type} {parser : Parser α}
    (hhas : level.Has parser) : parser.Balances height := by
  cases hhas with
  | expr mode => exact h.expr mode
  | statement => exact h.statement

end Level.Balances

/-- Every level of the grammar is balanced. -/
theorem balances_ofHeight (height : Nat) : (Level.ofHeight height).Balances height := by
  induction height with
  | zero =>
      exact ⟨fun _ => .construct_tooDeep _, .terminated (.construct_tooDeep _)⟩
  | succ height ih =>
      have hgrammatical := grammatical_ofHeight height
      have hresolute := resolute_ofHeight height
      exact ⟨fun mode => .construct_within
          (Composed.balances ih.of_has (hgrammatical.composed_expression hresolute mode)) _,
        .terminated (.construct_within
          (Composed.balances ih.of_has (hgrammatical.composed_statementBody hresolute)) _)⟩

/-! ## Programs -/

/-- The tree of a program, or why the text is refused, with another bound on nesting. -/
def Program.parseUpTo (limit : Nat) (source : String) : Except SyntaxError Program :=
  match parseWithin limit source.toList with
  | .ok statements _ => .ok ⟨statements, ⟨0, source.toList.length⟩⟩
  | .error failure _ => .error (failure.report source.toList)

/-- With the bound of the language this is the parse of a program. -/
theorem Program.parseUpTo_nestingLimit (source : String) :
    Program.parseUpTo nestingLimit source = Program.parse source :=
  (Program.parse_run source).symm

/-- With more levels a run over a text goes as with fewer, as far as these do. -/
theorem agrees_parseWithin {limit more : Nat} (hle : limit ≤ more) (text : List Char) :
    Simulation.bounded.Agrees (List.Forall₂ (Statement.Alike Eq)) (parseWithin limit text)
      (parseWithin more text) :=
  Simulation.agrees_statements Simulation.bounded_lawful (Simulation.levels_of_le hle)
    (grammatical_ofHeight limit) (grammatical_ofHeight more) ⟨rfl, rfl⟩

/-- Alike trees with the same spans are the same tree. -/
theorem Statement.eq_of_alike {statements others : List Statement}
    (h : List.Forall₂ (Statement.Alike Eq) statements others) : statements = others := by
  have hsame := Statement.Alike.mapSpansAll_eq (f := id) (g := id) (fun _ _ hspan => hspan) h
  rwa [Statement.mapSpansAll_id, Statement.mapSpansAll_id] at hsame

/-- A run stopped because a construct started with so many statements and expressions open. -/
structure Failure.StopsAt (failure : Failure) (limit : Nat) (stop : ParseState) : Prop where
  cause : failure.cause = .tooDeep limit
  offset : failure.offset = stop.cursor.offset
  opened : failure.AtLimit limit (Event.openConstructs stop.journal)

/-- A run that fails for want of levels holds as many open constructs as there are levels. -/
theorem Failure.stopsAt {limit levels : Nat} {text : List Char} {failure : Failure}
    {stop : ParseState} (h : parseWithin limit text = .error failure stop)
    (hcause : failure.cause = .tooDeep levels) : failure.StopsAt limit stop := by
  have hbalanced : Balanced limit (.start text) (parseWithin limit text) :=
    Composed.balances (balances_ofHeight limit).of_has
      (grammatical_ofHeight limit).composed_statements (.start text)
  rw [h] at hbalanced
  cases hbalanced with
  | error inner _ hopen hlimit =>
      obtain ⟨rfl, hoffset, hat⟩ := hlimit levels hcause
      rw [show Event.openConstructs (ParseState.start text).journal = [] from rfl,
        List.append_nil] at hopen
      refine ⟨?_, hoffset, hopen ▸ hat⟩
      rw [hcause]
      exact congrArg Cause.tooDeep (Nat.zero_add limit)

/-- A text that is parsed with some number of levels is parsed so with any other, or the run lacks
levels. -/
theorem parseWithin_ok_or_tooDeep {height : Nat} {text : List Char} {statements : List Statement}
    (limit : Nat) (h : ∃ stop, parseWithin height text = .ok statements stop) :
    (∃ stop, parseWithin limit text = .ok statements stop) ∨
      ∃ failure stop, parseWithin limit text = .error failure stop ∧
        failure.cause = .tooDeep limit := by
  obtain ⟨stop, hrun⟩ := h
  rcases Nat.le_total limit height with hle | hle
  · have hagrees := agrees_parseWithin hle text
    rw [hrun] at hagrees
    generalize hlimit : parseWithin limit text = outcome at hagrees
    cases hagrees with
    | ok hstatements _ =>
        obtain rfl := Statement.eq_of_alike hstatements
        exact .inl ⟨_, rfl⟩
    | gaveUp hcause =>
        obtain ⟨levels, hcause⟩ := hcause
        exact .inr ⟨_, _, rfl, (Failure.stopsAt hlimit hcause).cause⟩
  · have hagrees := agrees_parseWithin hle text
    rw [hrun] at hagrees
    generalize parseWithin limit text = outcome at hagrees ⊢
    cases hagrees with
    | ok hstatements _ =>
        obtain rfl := Statement.eq_of_alike hstatements
        exact .inl ⟨_, rfl⟩

/-- A bound on nesting is transparent. A text is parsed with one bound as with any greater one,
unless the run stops at the bound; and a run that stops for want of levels holds as many open
statements and expressions as the bound says, where one more starts at the cursor. -/
theorem Program.parseUpTo_add (source : String) (limit extra : Nat) :
    (Program.parseUpTo limit source = Program.parseUpTo (limit + extra) source ∨
      ∃ failure stop, parseWithin limit source.toList = .error failure stop ∧
        failure.StopsAt limit stop) ∧
    ∀ failure stop levels, parseWithin limit source.toList = .error failure stop →
      failure.cause = .tooDeep levels → failure.StopsAt limit stop := by
  refine ⟨?_, fun failure stop levels hrun hcause => Failure.stopsAt hrun hcause⟩
  have hagrees := agrees_parseWithin (Nat.le_add_right limit extra) source.toList
  unfold Program.parseUpTo
  cases hrun : parseWithin limit source.toList with
  | ok statements stop =>
      rw [hrun] at hagrees
      generalize parseWithin (limit + extra) source.toList = outcome at hagrees ⊢
      cases hagrees with
      | ok hstatements _ => exact .inl (Statement.eq_of_alike hstatements ▸ rfl)
  | error failure stop =>
      rw [hrun] at hagrees
      generalize parseWithin (limit + extra) source.toList = outcome at hagrees ⊢
      cases hagrees with
      | error hfailure _ => exact .inl (congrArg (fun failure : Failure =>
          Except.error (failure.report source.toList)) hfailure)
      | gaveUp hcause =>
          obtain ⟨levels, hcause⟩ := hcause
          exact .inr ⟨failure, stop, rfl, Failure.stopsAt hrun hcause⟩

end Scriptlet
