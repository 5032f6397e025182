import Mathlib.Data.List.Forall2
import Scriptlet.Tree.Rebind

/-!
# What is read again as a binding

`Expr.StandsFor` says which binding an expression stands for, part by part, and `Expr.violations`
lists every part that binds nothing, in the order of the text and with a key before its value.
Reading an expression again gives the binding that it stands for if no part is listed, and the
first part that is listed otherwise. Parameters are the same for each element of a group.
-/

namespace Scriptlet

/-! ## Walks that stop -/

/-- What a walk over `violations` gives: the first of them, and without any a value that it is
meant to give. -/
inductive StopsAtFirst {α : Type} (meant : α → Prop) : List Violation → Except Violation α → Prop
    where
  | ok {value} : meant value → StopsAtFirst meant [] (.ok value)
  | error {violation later} : StopsAtFirst meant (violation :: later) (.error violation)

namespace StopsAtFirst

variable {α β : Type} {meant : α → Prop} {other : β → Prop} {violations later : List Violation}
  {result : Except Violation α} {make : α → Except Violation β}

/-- A walk goes on where the one before it has come to its end. -/
theorem bind (h : StopsAtFirst meant violations result)
    (hmake : ∀ value, meant value → StopsAtFirst other later (make value)) :
    StopsAtFirst other (violations ++ later) (result >>= make) := by
  cases h with
  | ok hvalue => exact hmake _ hvalue
  | error => exact .error

theorem map {make : α → β} (h : StopsAtFirst meant violations result)
    (hmake : ∀ value, meant value → other (make value)) :
    StopsAtFirst other violations (result >>= fun value => .ok (make value)) := by
  simpa using h.bind fun value hvalue => .ok (hmake value hvalue)

/-- A walk over a list takes its items from left to right. -/
theorem mapM {meant : α → β → Prop} {violations : α → List Violation} {items : List α}
    (h : ∀ item ∈ items, StopsAtFirst (meant item) (violations item) (make item)) :
    StopsAtFirst (List.Forall₂ meant items) (items.flatMap violations) (items.mapM make) := by
  induction items with
  | nil => exact .ok .nil
  | cons item items ih =>
      obtain ⟨hitem, hitems⟩ := List.forall_mem_cons.1 h
      rw [List.mapM_cons, List.flatMap_cons]
      exact hitem.bind fun value hvalue =>
        (ih hitems).map fun values hvalues => .cons hvalue hvalues

theorem exists_ok_iff (h : StopsAtFirst meant violations result) :
    (∃ value, result = .ok value) ↔ violations = [] := by
  cases h <;> simp

theorem error_iff (h : StopsAtFirst meant violations result) (violation : Violation) :
    result = .error violation ↔ violations.head? = some violation := by
  cases h <;> simp

theorem meant_of_ok (h : StopsAtFirst meant violations result) {value : α}
    (hvalue : result = .ok value) : meant value := by
  cases h with
  | ok hmeant => exact Except.ok.inj hvalue ▸ hmeant
  | error => cases hvalue

end StopsAtFirst

/-! ## Bindings -/

/-- Expressions that bind something: names, and object literals with plain names as keys and with
such expressions as values. -/
inductive Expr.Bindable : Expr → Prop where
  | name {name} : Bindable (.name name)
  | object {fields span} :
      (∀ field ∈ fields, ∃ name, field.key = .name name) →
      (∀ field ∈ fields, Bindable field.value.body) → Bindable (.object fields span)

mutual
/-- The binding that an expression stands for, with its span. -/
inductive Expr.StandsFor : Expr → Binding → Prop where
  | name {name} : Expr.StandsFor (.name name) (.name name)
  | object {fields items span} :
      List.Forall₂ ObjectField.StandsFor fields items →
      Expr.StandsFor (.object fields span) (.pattern items span)

/-- The field of a pattern that a field of an object literal stands for, with its span. -/
inductive ObjectField.StandsFor : ObjectField → PatternField → Prop where
  | intro {source value destination outer span} :
      Expr.StandsFor value destination →
      ObjectField.StandsFor ⟨.name source, ⟨value, outer⟩, span⟩ ⟨source, destination, span⟩
end

/-- What keeps a key from being the source of a field. -/
def ObjectKey.violations : ObjectKey → List Violation
  | .name _ => []
  | key => [⟨.keyNotName, key.span⟩]

mutual
/-- All parts of an expression that bind nothing, from left to right. -/
def Expr.violations : Expr → List Violation
  | .name _ => []
  | .object fields _ => ObjectField.violations fields
  | expr => [⟨.notBindable, expr.span⟩]

/-- All parts of some fields that bind nothing, from left to right and a key before its value. -/
def ObjectField.violations : List ObjectField → List Violation
  | [] => []
  | ⟨key, ⟨value, _⟩, _⟩ :: rest =>
    key.violations ++ (value.violations ++ ObjectField.violations rest)
end

mutual
/-- An expression binds something if each of its parts does. -/
theorem Expr.violations_eq_nil_iff : ∀ expr : Expr, expr.violations = [] ↔ expr.Bindable
  | .name _ => ⟨fun _ => .name, fun _ => rfl⟩
  | .object fields _ => by
      rw [Expr.violations, ObjectField.violations_eq_nil_iff fields]
      constructor
      · rintro ⟨hkeys, hvalues⟩
        exact .object hkeys hvalues
      · intro h
        cases h with
        | object hkeys hvalues => exact ⟨hkeys, hvalues⟩
  | .string _ _ | .number _ _ | .field _ _ _ | .index _ _ _ | .call _ _ _ | .sequence _ _ _
  | .assign _ _ _ | .arrow _ _ _ => ⟨nofun, nofun⟩

theorem ObjectField.violations_eq_nil_iff : ∀ fields : List ObjectField,
    ObjectField.violations fields = [] ↔
      (∀ field ∈ fields, ∃ name, field.key = .name name) ∧
        ∀ field ∈ fields, field.value.body.Bindable
  | [] => by simp [ObjectField.violations]
  | ⟨key, ⟨value, _⟩, _⟩ :: rest => by
      have hkey : key.violations = [] ↔ ∃ name, key = .name name := by
        cases key <;> simp [ObjectKey.violations]
      rw [ObjectField.violations, List.append_eq_nil_iff, List.append_eq_nil_iff, hkey,
        Expr.violations_eq_nil_iff value, ObjectField.violations_eq_nil_iff rest,
        List.forall_mem_cons, List.forall_mem_cons]
      tauto
end

theorem ObjectKey.toName_stopsAtFirst (key : ObjectKey) :
    StopsAtFirst (fun name => key = .name name) key.violations key.toName := by
  cases key with
  | name => exact .ok rfl
  | string | number | computed => exact .error

mutual
/-- The walk that reads an expression again. -/
theorem Expr.toBinding_stopsAtFirst : ∀ expr : Expr,
    StopsAtFirst expr.StandsFor expr.violations expr.toBinding
  | .name _ => .ok .name
  | .object fields _ => by
      rw [Expr.toBinding, Expr.violations]
      exact (ObjectField.toPatternFields_stopsAtFirst fields).map fun _ hitems => .object hitems
  | .string _ _ | .number _ _ | .field _ _ _ | .index _ _ _ | .call _ _ _ | .sequence _ _ _
  | .assign _ _ _ | .arrow _ _ _ => .error

theorem ObjectField.toPatternFields_stopsAtFirst : ∀ fields : List ObjectField,
    StopsAtFirst (List.Forall₂ ObjectField.StandsFor fields) (ObjectField.violations fields)
      (ObjectField.toPatternFields fields)
  | [] => .ok .nil
  | ⟨key, ⟨value, _⟩, _⟩ :: rest => by
      rw [ObjectField.toPatternFields, ObjectField.violations]
      refine key.toName_stopsAtFirst.bind fun source hsource => ?_
      refine (Expr.toBinding_stopsAtFirst value).bind fun destination hdestination => ?_
      refine (ObjectField.toPatternFields_stopsAtFirst rest).map fun items hitems => ?_
      exact .cons (hsource ▸ .intro hdestination) hitems
end

mutual
theorem Expr.StandsFor.toBinding_eq : ∀ {expr : Expr} {binding : Binding},
    expr.StandsFor binding → expr.toBinding = .ok binding
  | _, _, .name => rfl
  | _, _, .object hitems => by
      rw [Expr.toBinding, ObjectField.StandsFor.toPatternFields_eq hitems]
      rfl

theorem ObjectField.StandsFor.toPatternFields_eq : ∀ {fields : List ObjectField}
    {items : List PatternField}, List.Forall₂ ObjectField.StandsFor fields items →
      ObjectField.toPatternFields fields = .ok items
  | _, _, .nil => rfl
  | _, _, .cons (.intro hvalue) hitems => by
      rw [ObjectField.toPatternFields, Expr.StandsFor.toBinding_eq hvalue,
        ObjectField.StandsFor.toPatternFields_eq hitems]
      rfl
end

/-- Reading an expression again gives exactly the binding that it stands for. -/
theorem Expr.toBinding_eq_ok_iff (expr : Expr) (binding : Binding) :
    expr.toBinding = .ok binding ↔ expr.StandsFor binding :=
  ⟨expr.toBinding_stopsAtFirst.meant_of_ok, Expr.StandsFor.toBinding_eq⟩

/-! ## Parameters -/

/-- The parameter that an element of a group stands for, with its span. -/
inductive Expr.StandsForParameter : Expr → Parameter → Prop where
  | assign {target source span} :
      StandsForParameter (.assign target source span) ⟨target, some source, span⟩
  | plain {expr binding} :
      expr.StandsFor binding → StandsForParameter expr ⟨binding, none, expr.span⟩

/-- All parts of an element of a group that bind nothing, from left to right. -/
def Expr.parameterViolations : Expr → List Violation
  | .assign _ _ _ => []
  | expr => expr.violations

/-- Elements of a group that are parameters: default values and expressions that bind something. -/
def Expr.IsParameter (element : Expr) : Prop :=
  (∃ target source span, element = .assign target source span) ∨ element.Bindable

theorem Expr.parameterViolations_eq_nil_iff (element : Expr) :
    element.parameterViolations = [] ↔ element.IsParameter := by
  unfold Expr.parameterViolations Expr.IsParameter
  split
  · simp
  · next hassign =>
    rw [element.violations_eq_nil_iff]
    exact ⟨.inr, fun h => h.resolve_left fun ⟨_, _, _, heq⟩ => hassign _ _ _ heq⟩

theorem Expr.toParameter_stopsAtFirst (element : Expr) :
    StopsAtFirst element.StandsForParameter element.parameterViolations element.toParameter := by
  cases element with
  | assign => exact .ok .assign
  | _ => exact (Expr.toBinding_stopsAtFirst _).map fun _ hbinding => .plain hbinding

theorem Expr.StandsForParameter.toParameter_eq {element : Expr} {parameter : Parameter}
    (h : element.StandsForParameter parameter) : element.toParameter = .ok parameter := by
  cases h with
  | assign => rfl
  | plain hbinding =>
      cases hbinding with
      | name => rfl
      | object hitems =>
          rw [Expr.toParameter, Expr.StandsFor.toBinding_eq (.object hitems)]
          · rfl
          · exact nofun

/-- The walk that reads the elements of a group again. -/
theorem Expr.mapM_toParameter_stopsAtFirst (elements : List Expr) :
    StopsAtFirst (List.Forall₂ Expr.StandsForParameter elements)
      (elements.flatMap Expr.parameterViolations) (elements.mapM Expr.toParameter) :=
  .mapM fun element _ => element.toParameter_stopsAtFirst

theorem Expr.mapM_toParameter_eq {elements : List Expr} {items : List Parameter}
    (h : List.Forall₂ Expr.StandsForParameter elements items) :
    elements.mapM Expr.toParameter = .ok items := by
  induction h with
  | nil => rfl
  | cons hitem _ ih =>
      rw [List.mapM_cons, hitem.toParameter_eq, ih]
      rfl

/-- The walk that reads the content of a group again. -/
theorem Expr.toParameters_stopsAtFirst (content : Expr) (span : Span) :
    StopsAtFirst
      (fun parameters => parameters.span = span ∧
        List.Forall₂ Expr.StandsForParameter content.elements parameters.items)
      (content.elements.flatMap Expr.parameterViolations) (content.toParameters span) :=
  (Expr.mapM_toParameter_stopsAtFirst content.elements).map fun _ hitems => ⟨rfl, hitems⟩

/-- Reading a group again gives exactly the parameters that its elements stand for. -/
theorem Expr.toParameters_eq_ok_iff (content : Expr) (span : Span) (parameters : Parameters) :
    content.toParameters span = .ok parameters ↔
      parameters.span = span ∧
        List.Forall₂ Expr.StandsForParameter content.elements parameters.items := by
  constructor
  · exact (content.toParameters_stopsAtFirst span).meant_of_ok
  · obtain ⟨items, outer⟩ := parameters
    rintro ⟨rfl, hitems⟩
    rw [Expr.toParameters, Expr.mapM_toParameter_eq hitems]
    rfl

/-- What the elements of a group bring with them holds of the parameters that they stand for. -/
theorem Expr.forall_mem_parameters {P : Expr → Prop} {Q : Parameter → Prop}
    {elements : List Expr} {items : List Parameter}
    (h : List.Forall₂ Expr.StandsForParameter elements items)
    (hitem : ∀ {element item}, element.StandsForParameter item → P element → Q item)
    (hall : ∀ element ∈ elements, P element) : ∀ item ∈ items, Q item := by
  induction h with
  | nil => exact List.forall_mem_nil _
  | cons hfirst _ ih =>
      obtain ⟨helement, helements⟩ := List.forall_mem_cons.1 hall
      exact List.forall_mem_cons.2 ⟨hitem hfirst helement, ih helements⟩

/-- The elements of a sequence behind those that were taken from it before: what a loop collects
that goes down the right sides. -/
def Expr.elementsBehind (before : List Expr) : Expr → List Expr
  | .sequence left right _ => right.elementsBehind (before ++ [left])
  | expr => before ++ [expr]

theorem Expr.elementsBehind_eq (expr : Expr) (before : List Expr) :
    expr.elementsBehind before = before ++ expr.elements := by
  induction before, expr using Expr.elementsBehind.induct with
  | case1 before left right _ ih =>
      rw [Expr.elementsBehind, ih, Expr.elements, List.append_assoc, List.singleton_append]
  | case2 before expr hsequence =>
      cases expr with
      | sequence left right span => exact absurd rfl (hsequence left right span)
      | _ => rfl

/-- Reading again is exact, keeps the order and reports the first part that binds nothing: an
object literal is a pattern if it is bindable, with one field for each of its own, and the content
of a group is a list of parameters if each of its elements is one. -/
theorem Expr.rebinding_exact :
    (∀ (fields : List ObjectField) (span : Span),
      ((∃ pattern, (Expr.object fields span).toBinding = .ok pattern) ↔
        (Expr.object fields span).Bindable) ∧
      (∀ pattern, (Expr.object fields span).toBinding = .ok pattern ↔
        ∃ items, pattern = .pattern items span ∧
          List.Forall₂ ObjectField.StandsFor fields items) ∧
      ∀ violation, (Expr.object fields span).toBinding = .error violation ↔
        (ObjectField.violations fields).head? = some violation) ∧
    ∀ (group : Expr) (span : Span),
      group.elementsBehind [] = group.elements ∧
      ((∃ parameters, group.toParameters span = .ok parameters) ↔
        ∀ element ∈ group.elements, element.IsParameter) ∧
      (∀ parameters, group.toParameters span = .ok parameters ↔
        parameters.span = span ∧
          List.Forall₂ Expr.StandsForParameter group.elements parameters.items) ∧
      ∀ violation, group.toParameters span = .error violation ↔
        (group.elements.flatMap Expr.parameterViolations).head? = some violation := by
  refine ⟨fun fields span => ?_, fun group span => ?_⟩
  · have hwalk := (Expr.object fields span).toBinding_stopsAtFirst
    refine ⟨?_, fun pattern => ?_, hwalk.error_iff⟩
    · rw [hwalk.exists_ok_iff, Expr.violations_eq_nil_iff]
    · rw [Expr.toBinding_eq_ok_iff]
      constructor
      · intro h
        cases h with
        | object hitems => exact ⟨_, rfl, hitems⟩
      · rintro ⟨items, rfl, hitems⟩
        exact .object hitems
  · have hwalk := group.toParameters_stopsAtFirst span
    refine ⟨group.elementsBehind_eq [], ?_, group.toParameters_eq_ok_iff span, hwalk.error_iff⟩
    rw [hwalk.exists_ok_iff, List.flatMap_eq_nil_iff]
    exact forall₂_congr fun element _ => element.parameterViolations_eq_nil_iff

end Scriptlet
