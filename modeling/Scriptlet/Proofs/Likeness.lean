import Scriptlet.Tree.Rebind
import Mathlib.Data.List.Forall2
import Mathlib.Data.Option.Basic

/-!
# Trees that differ in their spans

`mapSpans f` puts `f span` for every span of a tree, and two trees are `Alike R` when they differ in
their spans only, by the relation `R`. What is read again as a binding is alike when the expressions
are: the same bindings, or violations of one cause with spans that `R` relates.
-/

namespace Scriptlet

/-! ## Other spans -/

/-- A name with another span. -/
def Name.mapSpans (f : Span → Span) (name : Name) : Name :=
  ⟨name.text, f name.span⟩

mutual
/-- A binding with other spans. -/
def Binding.mapSpans (f : Span → Span) : Binding → Binding
  | .name name => .name (name.mapSpans f)
  | .pattern fields span => .pattern (PatternField.mapSpans f fields) (f span)

/-- The fields of a pattern with other spans. -/
def PatternField.mapSpans (f : Span → Span) : List PatternField → List PatternField
  | [] => []
  | ⟨source, destination, span⟩ :: rest =>
    ⟨source.mapSpans f, destination.mapSpans f, f span⟩ :: PatternField.mapSpans f rest
end

mutual
/-- An expression with other spans. -/
def Expr.mapSpans (f : Span → Span) : Expr → Expr
  | .name name => .name (name.mapSpans f)
  | .string value span => .string value (f span)
  | .number text span => .number text (f span)
  | .field host name span => .field (host.mapSpans f) name (f span)
  | .index host index span => .index (host.mapSpans f) (index.mapSpans f) (f span)
  | .call host arguments span => .call (host.mapSpans f) (Slot.mapSpansAll f arguments) (f span)
  | .sequence left right span => .sequence (left.mapSpans f) (right.mapSpans f) (f span)
  | .object fields span => .object (ObjectField.mapSpans f fields) (f span)
  | .assign target source span => .assign (target.mapSpans f) (source.mapSpans f) (f span)
  | .arrow parameters body span => .arrow (parameters.mapSpans f) (body.mapSpans f) (f span)

/-- A slot with other spans. -/
def Slot.mapSpans (f : Span → Span) : Slot → Slot
  | ⟨body, span⟩ => ⟨body.mapSpans f, f span⟩

/-- Slots with other spans. -/
def Slot.mapSpansAll (f : Span → Span) : List Slot → List Slot
  | [] => []
  | slot :: rest => slot.mapSpans f :: Slot.mapSpansAll f rest

/-- A key with other spans. -/
def ObjectKey.mapSpans (f : Span → Span) : ObjectKey → ObjectKey
  | .name name => .name (name.mapSpans f)
  | .string value span => .string value (f span)
  | .number text span => .number text (f span)
  | .computed slot => .computed (slot.mapSpans f)

/-- The fields of an object literal with other spans. -/
def ObjectField.mapSpans (f : Span → Span) : List ObjectField → List ObjectField
  | [] => []
  | ⟨key, value, span⟩ :: rest =>
    ⟨key.mapSpans f, value.mapSpans f, f span⟩ :: ObjectField.mapSpans f rest

/-- The items of a list of parameters with other spans. -/
def Parameter.mapSpans (f : Span → Span) : List Parameter → List Parameter
  | [] => []
  | ⟨binding, none, span⟩ :: rest =>
    ⟨binding.mapSpans f, none, f span⟩ :: Parameter.mapSpans f rest
  | ⟨binding, some fallback, span⟩ :: rest =>
    ⟨binding.mapSpans f, some (fallback.mapSpans f), f span⟩ :: Parameter.mapSpans f rest

/-- Parameters with other spans. -/
def Parameters.mapSpans (f : Span → Span) : Parameters → Parameters
  | ⟨items, span⟩ => ⟨Parameter.mapSpans f items, f span⟩

/-- The body of an arrow function with other spans. -/
def ArrowBody.mapSpans (f : Span → Span) : ArrowBody → ArrowBody
  | .expression slot => .expression (slot.mapSpans f)
  | .block statements span => .block (Statement.mapSpansAll f statements) (f span)

/-- A statement with other spans. -/
def Statement.mapSpans (f : Span → Span) : Statement → Statement
  | .variableDeclaration modifier name none span =>
    .variableDeclaration modifier (name.mapSpans f) none (f span)
  | .variableDeclaration modifier name (some initializer) span =>
    .variableDeclaration modifier (name.mapSpans f) (some (initializer.mapSpans f)) (f span)
  | .functionDeclaration name parameters body span =>
    .functionDeclaration (name.mapSpans f) (parameters.map (Name.mapSpans f))
      (Statement.mapSpansAll f body) (f span)
  | .expression slot => .expression (slot.mapSpans f)

/-- Statements with other spans. -/
def Statement.mapSpansAll (f : Span → Span) : List Statement → List Statement
  | [] => []
  | statement :: rest => statement.mapSpans f :: Statement.mapSpansAll f rest
end

/-- A program with other spans. -/
def Program.mapSpans (f : Span → Span) (program : Program) : Program :=
  ⟨Statement.mapSpansAll f program.statements, f program.span⟩

mutual
/-- A binding with its own spans. -/
theorem Binding.mapSpans_id : ∀ binding : Binding, binding.mapSpans id = binding
  | .name _ => rfl
  | .pattern fields _ => by rw [Binding.mapSpans, PatternField.mapSpans_id fields, id]

theorem PatternField.mapSpans_id : ∀ fields : List PatternField,
    PatternField.mapSpans id fields = fields
  | [] => rfl
  | ⟨source, destination, _⟩ :: rest => by
      rw [PatternField.mapSpans, Binding.mapSpans_id destination, PatternField.mapSpans_id rest,
        Name.mapSpans, id, id]
end

mutual
/-- An expression with its own spans. -/
theorem Expr.mapSpans_id : ∀ expr : Expr, expr.mapSpans id = expr
  | .name _ | .string _ _ | .number _ _ => rfl
  | .field host _ _ => by rw [Expr.mapSpans, Expr.mapSpans_id host, id]
  | .index host index _ => by
      rw [Expr.mapSpans, Expr.mapSpans_id host, Slot.mapSpans_id index, id]
  | .call host arguments _ => by
      rw [Expr.mapSpans, Expr.mapSpans_id host, Slot.mapSpansAll_id arguments, id]
  | .sequence left right _ => by
      rw [Expr.mapSpans, Expr.mapSpans_id left, Expr.mapSpans_id right, id]
  | .object fields _ => by rw [Expr.mapSpans, ObjectField.mapSpans_id fields, id]
  | .assign target source _ => by
      rw [Expr.mapSpans, Binding.mapSpans_id target, Slot.mapSpans_id source, id]
  | .arrow parameters body _ => by
      rw [Expr.mapSpans, Parameters.mapSpans_id parameters, ArrowBody.mapSpans_id body, id]

theorem Slot.mapSpans_id : ∀ slot : Slot, slot.mapSpans id = slot
  | ⟨body, _⟩ => by rw [Slot.mapSpans, Expr.mapSpans_id body, id]

theorem Slot.mapSpansAll_id : ∀ slots : List Slot, Slot.mapSpansAll id slots = slots
  | [] => rfl
  | slot :: rest => by rw [Slot.mapSpansAll, Slot.mapSpans_id slot, Slot.mapSpansAll_id rest]

theorem ObjectKey.mapSpans_id : ∀ key : ObjectKey, key.mapSpans id = key
  | .name _ | .string _ _ | .number _ _ => rfl
  | .computed slot => by rw [ObjectKey.mapSpans, Slot.mapSpans_id slot]

theorem ObjectField.mapSpans_id : ∀ fields : List ObjectField,
    ObjectField.mapSpans id fields = fields
  | [] => rfl
  | ⟨key, value, _⟩ :: rest => by
      rw [ObjectField.mapSpans, ObjectKey.mapSpans_id key, Slot.mapSpans_id value,
        ObjectField.mapSpans_id rest, id]

theorem Parameter.mapSpans_id : ∀ items : List Parameter, Parameter.mapSpans id items = items
  | [] => rfl
  | ⟨binding, none, _⟩ :: rest => by
      rw [Parameter.mapSpans, Binding.mapSpans_id binding, Parameter.mapSpans_id rest, id]
  | ⟨binding, some fallback, _⟩ :: rest => by
      rw [Parameter.mapSpans, Binding.mapSpans_id binding, Slot.mapSpans_id fallback,
        Parameter.mapSpans_id rest, id]

theorem Parameters.mapSpans_id : ∀ parameters : Parameters, parameters.mapSpans id = parameters
  | ⟨items, _⟩ => by rw [Parameters.mapSpans, Parameter.mapSpans_id items, id]

theorem ArrowBody.mapSpans_id : ∀ body : ArrowBody, body.mapSpans id = body
  | .expression slot => by rw [ArrowBody.mapSpans, Slot.mapSpans_id slot]
  | .block statements _ => by rw [ArrowBody.mapSpans, Statement.mapSpansAll_id statements, id]

/-- A statement with its own spans. -/
theorem Statement.mapSpans_id : ∀ statement : Statement, statement.mapSpans id = statement
  | .variableDeclaration _ _ none _ => rfl
  | .variableDeclaration _ _ (some initializer) _ => by
      rw [Statement.mapSpans, Slot.mapSpans_id initializer, Name.mapSpans, id, id]
  | .functionDeclaration _ parameters body _ => by
      have hparameters : parameters.map (Name.mapSpans id) = parameters := List.map_id parameters
      rw [Statement.mapSpans, hparameters, Statement.mapSpansAll_id body, Name.mapSpans, id, id]
  | .expression slot => by rw [Statement.mapSpans, Slot.mapSpans_id slot]

/-- Statements with their own spans. -/
theorem Statement.mapSpansAll_id : ∀ statements : List Statement,
    Statement.mapSpansAll id statements = statements
  | [] => rfl
  | statement :: rest => by
      rw [Statement.mapSpansAll, Statement.mapSpans_id statement, Statement.mapSpansAll_id rest]
end

/-! ## Likeness -/

section

variable (R : Span → Span → Prop)

/-- Names that differ in their span. -/
inductive Name.Alike : Name → Name → Prop where
  | intro {text span other} : R span other → Name.Alike ⟨text, span⟩ ⟨text, other⟩

mutual
/-- Bindings that differ in their spans. -/
inductive Binding.Alike : Binding → Binding → Prop where
  | name {name other} : name.Alike R other → Binding.Alike (.name name) (.name other)
  | pattern {fields others span other} :
      List.Forall₂ PatternField.Alike fields others → R span other →
      Binding.Alike (.pattern fields span) (.pattern others other)

/-- Fields of patterns that differ in their spans. -/
inductive PatternField.Alike : PatternField → PatternField → Prop where
  | intro {source source' destination destination' span other} :
      source.Alike R source' → Binding.Alike destination destination' → R span other →
      PatternField.Alike ⟨source, destination, span⟩ ⟨source', destination', other⟩
end

mutual
/-- Expressions that differ in their spans. -/
inductive Expr.Alike : Expr → Expr → Prop where
  | name {name other} : name.Alike R other → Expr.Alike (.name name) (.name other)
  | string {value span other} : R span other → Expr.Alike (.string value span) (.string value other)
  | number {text span other} : R span other → Expr.Alike (.number text span) (.number text other)
  | field {host host' name span other} :
      Expr.Alike host host' → R span other →
      Expr.Alike (.field host name span) (.field host' name other)
  | index {host host' index index' span other} :
      Expr.Alike host host' → Slot.Alike index index' → R span other →
      Expr.Alike (.index host index span) (.index host' index' other)
  | call {host host' arguments arguments' span other} :
      Expr.Alike host host' → List.Forall₂ Slot.Alike arguments arguments' → R span other →
      Expr.Alike (.call host arguments span) (.call host' arguments' other)
  | sequence {left left' right right' span other} :
      Expr.Alike left left' → Expr.Alike right right' → R span other →
      Expr.Alike (.sequence left right span) (.sequence left' right' other)
  | object {fields fields' span other} :
      List.Forall₂ ObjectField.Alike fields fields' → R span other →
      Expr.Alike (.object fields span) (.object fields' other)
  | assign {target target' source source' span other} :
      target.Alike R target' → Slot.Alike source source' → R span other →
      Expr.Alike (.assign target source span) (.assign target' source' other)
  | arrow {parameters parameters' body body' span other} :
      Parameters.Alike parameters parameters' → ArrowBody.Alike body body' → R span other →
      Expr.Alike (.arrow parameters body span) (.arrow parameters' body' other)

/-- Slots that differ in their spans. -/
inductive Slot.Alike : Slot → Slot → Prop where
  | intro {body body' span other} :
      Expr.Alike body body' → R span other → Slot.Alike ⟨body, span⟩ ⟨body', other⟩

/-- Keys that differ in their spans. -/
inductive ObjectKey.Alike : ObjectKey → ObjectKey → Prop where
  | name {name other} : name.Alike R other → ObjectKey.Alike (.name name) (.name other)
  | string {value span other} :
      R span other → ObjectKey.Alike (.string value span) (.string value other)
  | number {text span other} :
      R span other → ObjectKey.Alike (.number text span) (.number text other)
  | computed {slot slot'} :
      Slot.Alike slot slot' → ObjectKey.Alike (.computed slot) (.computed slot')

/-- Fields of object literals that differ in their spans. -/
inductive ObjectField.Alike : ObjectField → ObjectField → Prop where
  | intro {key key' value value' span other} :
      ObjectKey.Alike key key' → Slot.Alike value value' → R span other →
      ObjectField.Alike ⟨key, value, span⟩ ⟨key', value', other⟩

/-- Items of lists of parameters that differ in their spans. -/
inductive Parameter.Alike : Parameter → Parameter → Prop where
  | plain {binding binding' span other} :
      binding.Alike R binding' → R span other →
      Parameter.Alike ⟨binding, none, span⟩ ⟨binding', none, other⟩
  | fallback {binding binding' fallback fallback' span other} :
      binding.Alike R binding' → Slot.Alike fallback fallback' → R span other →
      Parameter.Alike ⟨binding, some fallback, span⟩ ⟨binding', some fallback', other⟩

/-- Parameters that differ in their spans. -/
inductive Parameters.Alike : Parameters → Parameters → Prop where
  | intro {items items' span other} :
      List.Forall₂ Parameter.Alike items items' → R span other →
      Parameters.Alike ⟨items, span⟩ ⟨items', other⟩

/-- Bodies of arrow functions that differ in their spans. -/
inductive ArrowBody.Alike : ArrowBody → ArrowBody → Prop where
  | expression {slot slot'} :
      Slot.Alike slot slot' → ArrowBody.Alike (.expression slot) (.expression slot')
  | block {statements statements' span other} :
      List.Forall₂ Statement.Alike statements statements' → R span other →
      ArrowBody.Alike (.block statements span) (.block statements' other)

/-- Statements that differ in their spans. -/
inductive Statement.Alike : Statement → Statement → Prop where
  | declaration {modifier name name' span other} :
      name.Alike R name' → R span other →
      Statement.Alike (.variableDeclaration modifier name none span)
        (.variableDeclaration modifier name' none other)
  | initialized {modifier name name' initializer initializer' span other} :
      name.Alike R name' → Slot.Alike initializer initializer' → R span other →
      Statement.Alike (.variableDeclaration modifier name (some initializer) span)
        (.variableDeclaration modifier name' (some initializer') other)
  | function {name name' parameters parameters' body body' span other} :
      name.Alike R name' → List.Forall₂ (Name.Alike R) parameters parameters' →
      List.Forall₂ Statement.Alike body body' → R span other →
      Statement.Alike (.functionDeclaration name parameters body span)
        (.functionDeclaration name' parameters' body' other)
  | expression {slot slot'} :
      Slot.Alike slot slot' → Statement.Alike (.expression slot) (.expression slot')
end

end

/-! ## Other spans of alike trees -/

section

-- The lists of a family of theorems need the hypothesis for their items only.
set_option linter.unusedSectionVars false

variable {R : Span → Span → Prop} {f g : Span → Span}
  (hspan : ∀ span other, R span other → f span = g other)

include hspan

/-- Names that are alike are one name with the spans of both made the same. -/
theorem Name.Alike.mapSpans_eq {name other : Name} (h : name.Alike R other) :
    name.mapSpans f = other.mapSpans g := by
  cases h with
  | intro hR => rw [Name.mapSpans, Name.mapSpans, hspan _ _ hR]

theorem Name.Alike.map_mapSpans_eq {names others : List Name}
    (h : List.Forall₂ (Name.Alike R) names others) :
    names.map (Name.mapSpans f) = others.map (Name.mapSpans g) := by
  induction h with
  | nil => rfl
  | cons hname _ ih => rw [List.map_cons, List.map_cons, hname.mapSpans_eq hspan, ih]

mutual
/-- Bindings that are alike are one binding with the spans of both made the same. -/
theorem Binding.Alike.mapSpans_eq : ∀ {binding other : Binding}, binding.Alike R other →
    binding.mapSpans f = other.mapSpans g
  | .name _, .name _, .name hname => by
      rw [Binding.mapSpans, Binding.mapSpans, hname.mapSpans_eq hspan]
  | .pattern _ _, .pattern _ _, .pattern hfields hR => by
      rw [Binding.mapSpans, Binding.mapSpans, PatternField.Alike.mapSpans_eq hfields, hspan _ _ hR]

theorem PatternField.Alike.mapSpans_eq : ∀ {fields others : List PatternField},
    List.Forall₂ (PatternField.Alike R) fields others →
      PatternField.mapSpans f fields = PatternField.mapSpans g others
  | [], [], .nil => rfl
  | ⟨_, _, _⟩ :: _, ⟨_, _, _⟩ :: _, .cons (.intro hsource hdestination hR) hrest => by
      rw [PatternField.mapSpans, PatternField.mapSpans, hsource.mapSpans_eq hspan,
        Binding.Alike.mapSpans_eq hdestination, hspan _ _ hR, PatternField.Alike.mapSpans_eq hrest]
end

mutual
/-- Expressions that are alike are one expression with the spans of both made the same. -/
theorem Expr.Alike.mapSpans_eq : ∀ {expr other : Expr}, expr.Alike R other →
    expr.mapSpans f = other.mapSpans g
  | .name _, .name _, .name hname => by
      rw [Expr.mapSpans, Expr.mapSpans, hname.mapSpans_eq hspan]
  | .string _ _, .string _ _, .string hR => by rw [Expr.mapSpans, Expr.mapSpans, hspan _ _ hR]
  | .number _ _, .number _ _, .number hR => by rw [Expr.mapSpans, Expr.mapSpans, hspan _ _ hR]
  | .field _ _ _, .field _ _ _, .field hhost hR => by
      rw [Expr.mapSpans, Expr.mapSpans, Expr.Alike.mapSpans_eq hhost, hspan _ _ hR]
  | .index _ _ _, .index _ _ _, .index hhost hindex hR => by
      rw [Expr.mapSpans, Expr.mapSpans, Expr.Alike.mapSpans_eq hhost,
        Slot.Alike.mapSpans_eq hindex, hspan _ _ hR]
  | .call _ _ _, .call _ _ _, .call hhost harguments hR => by
      rw [Expr.mapSpans, Expr.mapSpans, Expr.Alike.mapSpans_eq hhost,
        Slot.Alike.mapSpansAll_eq harguments, hspan _ _ hR]
  | .sequence _ _ _, .sequence _ _ _, .sequence hleft hright hR => by
      rw [Expr.mapSpans, Expr.mapSpans, Expr.Alike.mapSpans_eq hleft,
        Expr.Alike.mapSpans_eq hright, hspan _ _ hR]
  | .object _ _, .object _ _, .object hfields hR => by
      rw [Expr.mapSpans, Expr.mapSpans, ObjectField.Alike.mapSpans_eq hfields, hspan _ _ hR]
  | .assign _ _ _, .assign _ _ _, .assign htarget hsource hR => by
      rw [Expr.mapSpans, Expr.mapSpans, htarget.mapSpans_eq hspan,
        Slot.Alike.mapSpans_eq hsource, hspan _ _ hR]
  | .arrow _ _ _, .arrow _ _ _, .arrow hparameters hbody hR => by
      rw [Expr.mapSpans, Expr.mapSpans, Parameters.Alike.mapSpans_eq hparameters,
        ArrowBody.Alike.mapSpans_eq hbody, hspan _ _ hR]

theorem Slot.Alike.mapSpans_eq : ∀ {slot other : Slot}, slot.Alike R other →
    slot.mapSpans f = other.mapSpans g
  | ⟨_, _⟩, ⟨_, _⟩, .intro hbody hR => by
      rw [Slot.mapSpans, Slot.mapSpans, Expr.Alike.mapSpans_eq hbody, hspan _ _ hR]

theorem Slot.Alike.mapSpansAll_eq : ∀ {slots others : List Slot},
    List.Forall₂ (Slot.Alike R) slots others → Slot.mapSpansAll f slots = Slot.mapSpansAll g others
  | [], [], .nil => rfl
  | _ :: _, _ :: _, .cons hslot hrest => by
      rw [Slot.mapSpansAll, Slot.mapSpansAll, Slot.Alike.mapSpans_eq hslot,
        Slot.Alike.mapSpansAll_eq hrest]

theorem ObjectKey.Alike.mapSpans_eq : ∀ {key other : ObjectKey}, key.Alike R other →
    key.mapSpans f = other.mapSpans g
  | .name _, .name _, .name hname => by
      rw [ObjectKey.mapSpans, ObjectKey.mapSpans, hname.mapSpans_eq hspan]
  | .string _ _, .string _ _, .string hR => by
      rw [ObjectKey.mapSpans, ObjectKey.mapSpans, hspan _ _ hR]
  | .number _ _, .number _ _, .number hR => by
      rw [ObjectKey.mapSpans, ObjectKey.mapSpans, hspan _ _ hR]
  | .computed _, .computed _, .computed hslot => by
      rw [ObjectKey.mapSpans, ObjectKey.mapSpans, Slot.Alike.mapSpans_eq hslot]

theorem ObjectField.Alike.mapSpans_eq : ∀ {fields others : List ObjectField},
    List.Forall₂ (ObjectField.Alike R) fields others →
      ObjectField.mapSpans f fields = ObjectField.mapSpans g others
  | [], [], .nil => rfl
  | ⟨_, _, _⟩ :: _, ⟨_, _, _⟩ :: _, .cons (.intro hkey hvalue hR) hrest => by
      rw [ObjectField.mapSpans, ObjectField.mapSpans, ObjectKey.Alike.mapSpans_eq hkey,
        Slot.Alike.mapSpans_eq hvalue, hspan _ _ hR, ObjectField.Alike.mapSpans_eq hrest]

theorem Parameter.Alike.mapSpans_eq : ∀ {items others : List Parameter},
    List.Forall₂ (Parameter.Alike R) items others →
      Parameter.mapSpans f items = Parameter.mapSpans g others
  | [], [], .nil => rfl
  | ⟨_, none, _⟩ :: _, ⟨_, none, _⟩ :: _, .cons (.plain hbinding hR) hrest => by
      rw [Parameter.mapSpans, Parameter.mapSpans, hbinding.mapSpans_eq hspan, hspan _ _ hR,
        Parameter.Alike.mapSpans_eq hrest]
  | ⟨_, some _, _⟩ :: _, ⟨_, some _, _⟩ :: _, .cons (.fallback hbinding hslot hR) hrest => by
      rw [Parameter.mapSpans, Parameter.mapSpans, hbinding.mapSpans_eq hspan,
        Slot.Alike.mapSpans_eq hslot, hspan _ _ hR, Parameter.Alike.mapSpans_eq hrest]

theorem Parameters.Alike.mapSpans_eq : ∀ {parameters other : Parameters},
    parameters.Alike R other → parameters.mapSpans f = other.mapSpans g
  | ⟨_, _⟩, ⟨_, _⟩, .intro hitems hR => by
      rw [Parameters.mapSpans, Parameters.mapSpans, Parameter.Alike.mapSpans_eq hitems,
        hspan _ _ hR]

theorem ArrowBody.Alike.mapSpans_eq : ∀ {body other : ArrowBody}, body.Alike R other →
    body.mapSpans f = other.mapSpans g
  | .expression _, .expression _, .expression hslot => by
      rw [ArrowBody.mapSpans, ArrowBody.mapSpans, Slot.Alike.mapSpans_eq hslot]
  | .block _ _, .block _ _, .block hstatements hR => by
      rw [ArrowBody.mapSpans, ArrowBody.mapSpans, Statement.Alike.mapSpansAll_eq hstatements,
        hspan _ _ hR]

/-- Statements that are alike are one statement with the spans of both made the same. -/
theorem Statement.Alike.mapSpans_eq : ∀ {statement other : Statement}, statement.Alike R other →
    statement.mapSpans f = other.mapSpans g
  | .variableDeclaration _ _ none _, .variableDeclaration _ _ none _, .declaration hname hR => by
      rw [Statement.mapSpans, Statement.mapSpans, hname.mapSpans_eq hspan, hspan _ _ hR]
  | .variableDeclaration _ _ (some _) _, .variableDeclaration _ _ (some _) _,
      .initialized hname hslot hR => by
      rw [Statement.mapSpans, Statement.mapSpans, hname.mapSpans_eq hspan,
        Slot.Alike.mapSpans_eq hslot, hspan _ _ hR]
  | .functionDeclaration _ _ _ _, .functionDeclaration _ _ _ _,
      .function hname hparameters hbody hR => by
      rw [Statement.mapSpans, Statement.mapSpans, hname.mapSpans_eq hspan,
        Name.Alike.map_mapSpans_eq hspan hparameters, Statement.Alike.mapSpansAll_eq hbody,
        hspan _ _ hR]
  | .expression _, .expression _, .expression hslot => by
      rw [Statement.mapSpans, Statement.mapSpans, Slot.Alike.mapSpans_eq hslot]

/-- Statements that are alike one by one are the same with the spans of both made the same. -/
theorem Statement.Alike.mapSpansAll_eq : ∀ {statements others : List Statement},
    List.Forall₂ (Statement.Alike R) statements others →
      Statement.mapSpansAll f statements = Statement.mapSpansAll g others
  | [], [], .nil => rfl
  | _ :: _, _ :: _, .cons hstatement hrest => by
      rw [Statement.mapSpansAll, Statement.mapSpansAll, Statement.Alike.mapSpans_eq hstatement,
        Statement.Alike.mapSpansAll_eq hrest]
end

end

/-! ## Parts of alike trees -/

variable {R : Span → Span → Prop}

theorem Name.Alike.span {name other : Name} (h : name.Alike R other) : R name.span other.span := by
  cases h with
  | intro hR => exact hR

/-- Alike expressions have related spans. -/
theorem Expr.Alike.span {expr other : Expr} (h : expr.Alike R other) : R expr.span other.span := by
  cases h with
  | name hname => exact hname.span
  | string hR | number hR => exact hR
  | field _ hR | object _ hR => exact hR
  | index _ _ hR | call _ _ hR | sequence _ _ hR | assign _ _ hR | arrow _ _ hR => exact hR

theorem Slot.Alike.span {slot other : Slot} (h : slot.Alike R other) : R slot.span other.span := by
  cases h with
  | intro _ hR => exact hR

theorem ObjectKey.Alike.span {key other : ObjectKey} (h : key.Alike R other) :
    R key.span other.span := by
  cases h with
  | name hname => exact hname.span
  | string hR | number hR => exact hR
  | computed hslot => exact hslot.span

theorem Parameters.Alike.span {parameters other : Parameters} (h : parameters.Alike R other) :
    R parameters.span other.span := by
  cases h with
  | intro _ hR => exact hR

/-- The slots of alike expressions without brackets around them are alike. -/
theorem Slot.Alike.bare {expr other : Expr} (h : expr.Alike R other) :
    (Slot.bare expr).Alike R (.bare other) :=
  .intro h h.span

/-- Alike expressions have as many elements, which are alike one by one. -/
theorem Expr.Alike.elements : ∀ {expr other : Expr}, expr.Alike R other →
    List.Forall₂ (Expr.Alike R) expr.elements other.elements
  | .sequence _ _ _, .sequence _ _ _, .sequence hleft hright _ => .cons hleft hright.elements
  | .name _, .name _, h@(.name _) | .string _ _, .string _ _, h@(.string _)
  | .number _ _, .number _ _, h@(.number _) | .field _ _ _, .field _ _ _, h@(.field _ _)
  | .index _ _ _, .index _ _ _, h@(.index _ _ _) | .call _ _ _, .call _ _ _, h@(.call _ _ _)
  | .object _ _, .object _ _, h@(.object _ _) | .assign _ _ _, .assign _ _ _, h@(.assign _ _ _)
  | .arrow _ _ _, .arrow _ _ _, h@(.arrow _ _ _) => .cons h .nil

/-! ## Alike bindings of alike expressions -/

/-- What two alike parts of trees are read again as. -/
inductive Except.Alike (R : Span → Span → Prop) {α : Type} (value : α → α → Prop) :
    Except Violation α → Except Violation α → Prop where
  | ok {found other} : value found other → Except.Alike R value (.ok found) (.ok other)
  | error {cause span other} :
      R span other → Except.Alike R value (.error ⟨cause, span⟩) (.error ⟨cause, other⟩)

/-- What alike results are made into in alike ways is alike. -/
theorem Except.Alike.bind {α β : Type} {value : α → α → Prop} {made : β → β → Prop}
    {result result' : Except Violation α} {make make' : α → Except Violation β}
    (h : Except.Alike R value result result')
    (hmake : ∀ found other, value found other → Except.Alike R made (make found) (make' other)) :
    Except.Alike R made (result >>= make) (result' >>= make') := by
  cases h with
  | ok hvalue => exact hmake _ _ hvalue
  | error hR => exact .error hR

theorem ObjectKey.Alike.toName {key other : ObjectKey} (h : key.Alike R other) :
    Except.Alike R (Name.Alike R) key.toName other.toName := by
  cases h with
  | name hname => exact .ok hname
  | string hR | number hR => exact .error hR
  | computed hslot => exact .error hslot.span

mutual
/-- Alike expressions stand for alike bindings, or for none at alike parts. -/
theorem Expr.Alike.toBinding : ∀ {expr other : Expr}, expr.Alike R other →
    Except.Alike R (Binding.Alike R) expr.toBinding other.toBinding
  | .name _, .name _, .name hname => .ok (.name hname)
  | .object _ _, .object _ _, .object hfields hR => by
      rw [Expr.toBinding, Expr.toBinding]
      exact (ObjectField.Alike.toPatternFields hfields).bind
        fun _ _ hpattern => .ok (.pattern hpattern hR)
  | .string _ _, .string _ _, .string hR | .number _ _, .number _ _, .number hR => .error hR
  | .field _ _ _, .field _ _ _, .field _ hR => .error hR
  | .index _ _ _, .index _ _ _, .index _ _ hR | .call _ _ _, .call _ _ _, .call _ _ hR
  | .sequence _ _ _, .sequence _ _ _, .sequence _ _ hR
  | .assign _ _ _, .assign _ _ _, .assign _ _ hR
  | .arrow _ _ _, .arrow _ _ _, .arrow _ _ hR => .error hR

theorem ObjectField.Alike.toPatternFields : ∀ {fields others : List ObjectField},
    List.Forall₂ (ObjectField.Alike R) fields others →
      Except.Alike R (List.Forall₂ (PatternField.Alike R)) (ObjectField.toPatternFields fields)
        (ObjectField.toPatternFields others)
  | [], [], .nil => .ok .nil
  | ⟨_, ⟨_, _⟩, _⟩ :: _, ⟨_, ⟨_, _⟩, _⟩ :: _, .cons (.intro hkey (.intro hvalue _) hR) hrest => by
      rw [ObjectField.toPatternFields, ObjectField.toPatternFields]
      exact hkey.toName.bind fun _ _ hname => (Expr.Alike.toBinding hvalue).bind
        fun _ _ hbinding => (ObjectField.Alike.toPatternFields hrest).bind
          fun _ _ hfields => .ok (.cons (.intro hname hbinding hR) hfields)
end

theorem Expr.Alike.toParameter {expr other : Expr} (h : expr.Alike R other) :
    Except.Alike R (Parameter.Alike R) expr.toParameter other.toParameter := by
  have hspan := h.span
  have hplain : Except.Alike R (Parameter.Alike R)
      (do return ⟨← expr.toBinding, none, expr.span⟩)
      (do return ⟨← other.toBinding, none, other.span⟩) :=
    h.toBinding.bind fun _ _ hbinding => .ok (.plain hbinding hspan)
  cases h with
  | assign htarget hsource hR => exact .ok (.fallback htarget hsource hR)
  | name | string | number | field | index | call | sequence | object | arrow => exact hplain

/-- Expressions that are alike one by one stand for parameters that are. -/
theorem Expr.Alike.mapM_toParameter {exprs others : List Expr}
    (h : List.Forall₂ (Expr.Alike R) exprs others) :
    Except.Alike R (List.Forall₂ (Parameter.Alike R)) (exprs.mapM Expr.toParameter)
      (others.mapM Expr.toParameter) := by
  induction h with
  | nil => exact .ok .nil
  | cons hexpr _ ih =>
      rw [List.mapM_cons, List.mapM_cons]
      exact hexpr.toParameter.bind fun _ _ hitem =>
        ih.bind fun _ _ hitems => .ok (.cons hitem hitems)

/-- The contents of alike groups stand for alike parameters, or for none at alike parts. -/
theorem Expr.Alike.toParameters {expr other : Expr} {span span' : Span} (h : expr.Alike R other)
    (hR : R span span') :
    Except.Alike R (Parameters.Alike R) (expr.toParameters span) (other.toParameters span') :=
  (Expr.Alike.mapM_toParameter h.elements).bind fun _ _ hitems => .ok (.intro hitems hR)

end Scriptlet
