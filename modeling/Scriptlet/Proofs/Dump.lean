import Scriptlet.Tree.Json
import Scriptlet.Proofs.PrefixCode
import Mathlib.Data.List.Basic

/-!
# The dump of a tree

The JSON form of a tree says everything about it: two trees with the same form are the same. The
member `type` tells the forms of one type apart, and then the parts are equal one by one. With the
texts of JSON a prefix code, the two dumps of a program are lossless, and they differ by their
layout only.
-/

namespace Scriptlet

open Json

/-! ## Nodes -/

@[simp]
theorem Span.toJson_inj {a b : Span} : a.toJson = b.toJson ↔ a = b := by
  cases a
  cases b
  simp [Span.toJson]

namespace Json

variable {parts others : List (String × Json)} {a b : Span}

/-- The span of a node is its last member, so the parts are what stands before it. -/
@[simp]
theorem node_inj : node parts a = node others b ↔ parts = others ∧ a = b := by
  rw [node, node, object.injEq, ← List.concat_eq_append, ← List.concat_eq_append,
    List.concat_inj, Prod.mk.injEq, Span.toJson_inj]
  simp

@[simp]
theorem tagged_inj {type other : String} :
    tagged type parts a = tagged other others b ↔ type = other ∧ parts = others ∧ a = b := by
  simp [tagged, and_assoc]

@[simp]
theorem null_ne_node : null ≠ node parts a := by
  simp [node]

end Json

@[simp]
theorem Name.toJson_inj {a b : Name} : a.toJson = b.toJson ↔ a = b := by
  cases a
  cases b
  simp [Name.toJson]

@[simp]
theorem Name.toTaggedJson_inj {a b : Name} : a.toTaggedJson = b.toTaggedJson ↔ a = b := by
  cases a
  cases b
  simp [Name.toTaggedJson]

theorem Modifier.word_inj {a b : Modifier} : a.word = b.word ↔ a = b := by
  refine ⟨fun h => ?_, congrArg word⟩
  have hword := congrArg ofWord? h
  rwa [ofWord?_word, ofWord?_word, Option.some.injEq] at hword

/-! ## Bindings -/

mutual
theorem Binding.toJson_inj : ∀ a b : Binding, a.toJson = b.toJson → a = b
  | .name n, b, h => by
      cases b with
      | name m => simpa [Binding.toJson] using h
      | pattern => simp [Binding.toJson, Name.toTaggedJson] at h
  | .pattern fields span, b, h => by
      cases b with
      | name => simp [Binding.toJson, Name.toTaggedJson] at h
      | pattern others span' =>
          simp only [Binding.toJson, tagged_inj, List.cons.injEq, Prod.mk.injEq, array.injEq,
            true_and, and_true] at h
          obtain ⟨hfields, rfl⟩ := h
          rw [PatternField.listToJson_inj fields others hfields]

theorem PatternField.listToJson_inj : ∀ a b : List PatternField,
    PatternField.listToJson a = PatternField.listToJson b → a = b
  | [], b, h => by
      cases b with
      | nil => rfl
      | cons field others => cases field; simp [PatternField.listToJson] at h
  | ⟨source, destination, span⟩ :: fields, b, h => by
      cases b with
      | nil => simp [PatternField.listToJson] at h
      | cons field others =>
          obtain ⟨source', destination', span'⟩ := field
          simp only [PatternField.listToJson, node_inj, List.cons.injEq, Prod.mk.injEq,
            Name.toJson_inj, true_and, and_true] at h
          obtain ⟨⟨⟨rfl, hdestination⟩, rfl⟩, hfields⟩ := h
          rw [Binding.toJson_inj destination destination' hdestination,
            PatternField.listToJson_inj fields others hfields]
end

/-! ## Expressions and statements -/

mutual
theorem Expr.toJson_inj : ∀ a b : Expr, a.toJson = b.toJson → a = b
  | .name n, b, h => by
      cases b with
      | name m => simpa [Expr.toJson] using h
      -- Two forms differ in the member `type`.
      | _ => simp [Expr.toJson, Name.toTaggedJson, ofStringLiteral, ofNumberLiteral] at h
  | .string value span, b, h => by
      cases b with
      | string => simpa [Expr.toJson, ofStringLiteral] using h
      | _ => simp [Expr.toJson, Name.toTaggedJson, ofStringLiteral, ofNumberLiteral] at h
  | .number text span, b, h => by
      cases b with
      | number => simpa [Expr.toJson, ofNumberLiteral] using h
      | _ => simp [Expr.toJson, Name.toTaggedJson, ofStringLiteral, ofNumberLiteral] at h
  | .field host name span, b, h => by
      cases b with
      | field host' name' span' =>
          simp only [Expr.toJson, tagged_inj, List.cons.injEq, Prod.mk.injEq, Json.string.injEq,
            true_and, and_true] at h
          obtain ⟨⟨hhost, rfl⟩, rfl⟩ := h
          rw [Expr.toJson_inj host host' hhost]
      | _ => simp [Expr.toJson, Name.toTaggedJson, ofStringLiteral, ofNumberLiteral] at h
  | .index host index span, b, h => by
      cases b with
      | index host' index' span' =>
          simp only [Expr.toJson, tagged_inj, List.cons.injEq, Prod.mk.injEq, true_and,
            and_true] at h
          obtain ⟨⟨hhost, hindex⟩, rfl⟩ := h
          rw [Expr.toJson_inj host host' hhost, Slot.toJson_inj index index' hindex]
      | _ => simp [Expr.toJson, Name.toTaggedJson, ofStringLiteral, ofNumberLiteral] at h
  | .call host arguments span, b, h => by
      cases b with
      | call host' arguments' span' =>
          simp only [Expr.toJson, tagged_inj, List.cons.injEq, Prod.mk.injEq, array.injEq,
            true_and, and_true] at h
          obtain ⟨⟨hhost, harguments⟩, rfl⟩ := h
          rw [Expr.toJson_inj host host' hhost,
            Slot.listToJson_inj arguments arguments' harguments]
      | _ => simp [Expr.toJson, Name.toTaggedJson, ofStringLiteral, ofNumberLiteral] at h
  | .sequence left right span, b, h => by
      cases b with
      | sequence left' right' span' =>
          simp only [Expr.toJson, tagged_inj, List.cons.injEq, Prod.mk.injEq, true_and,
            and_true] at h
          obtain ⟨⟨hleft, hright⟩, rfl⟩ := h
          rw [Expr.toJson_inj left left' hleft, Expr.toJson_inj right right' hright]
      | _ => simp [Expr.toJson, Name.toTaggedJson, ofStringLiteral, ofNumberLiteral] at h
  | .object fields span, b, h => by
      cases b with
      | object fields' span' =>
          simp only [Expr.toJson, tagged_inj, List.cons.injEq, Prod.mk.injEq, array.injEq,
            true_and, and_true] at h
          obtain ⟨hfields, rfl⟩ := h
          rw [ObjectField.listToJson_inj fields fields' hfields]
      | _ => simp [Expr.toJson, Name.toTaggedJson, ofStringLiteral, ofNumberLiteral] at h
  | .assign target source span, b, h => by
      cases b with
      | assign target' source' span' =>
          simp only [Expr.toJson, tagged_inj, List.cons.injEq, Prod.mk.injEq, true_and,
            and_true] at h
          obtain ⟨⟨htarget, hsource⟩, rfl⟩ := h
          rw [Binding.toJson_inj target target' htarget, Slot.toJson_inj source source' hsource]
      | _ => simp [Expr.toJson, Name.toTaggedJson, ofStringLiteral, ofNumberLiteral] at h
  | .arrow parameters body span, b, h => by
      cases b with
      | arrow parameters' body' span' =>
          simp only [Expr.toJson, tagged_inj, List.cons.injEq, Prod.mk.injEq, true_and,
            and_true] at h
          obtain ⟨⟨hparameters, hbody⟩, rfl⟩ := h
          rw [Parameters.toJson_inj parameters parameters' hparameters,
            ArrowBody.toJson_inj body body' hbody]
      | _ => simp [Expr.toJson, Name.toTaggedJson, ofStringLiteral, ofNumberLiteral] at h

theorem Slot.toJson_inj : ∀ a b : Slot, a.toJson = b.toJson → a = b
  | ⟨body, span⟩, ⟨body', span'⟩, h => by
      simp only [Slot.toJson, node_inj, List.cons.injEq, Prod.mk.injEq, true_and, and_true] at h
      obtain ⟨hbody, rfl⟩ := h
      rw [Expr.toJson_inj body body' hbody]

theorem Slot.optionToJson_inj : ∀ a b : Option Slot,
    Slot.optionToJson a = Slot.optionToJson b → a = b
  | none, b, h => by
      cases b with
      | none => rfl
      | some slot => exact absurd h (by cases slot; simp [Slot.optionToJson, Slot.toJson])
  | some slot, b, h => by
      cases b with
      | none => exact absurd h.symm (by cases slot; simp [Slot.optionToJson, Slot.toJson])
      | some other => exact congrArg some (Slot.toJson_inj slot other h)

theorem Slot.listToJson_inj : ∀ a b : List Slot, Slot.listToJson a = Slot.listToJson b → a = b
  | [], b, h => by
      cases b with
      | nil => rfl
      | cons => simp [Slot.listToJson] at h
  | slot :: slots, b, h => by
      cases b with
      | nil => simp [Slot.listToJson] at h
      | cons other others =>
          obtain ⟨hslot, hslots⟩ := List.cons.inj h
          rw [Slot.toJson_inj slot other hslot, Slot.listToJson_inj slots others hslots]

theorem ObjectKey.toJson_inj : ∀ a b : ObjectKey, a.toJson = b.toJson → a = b
  | .name n, b, h => by
      cases b with
      | name m => simpa [ObjectKey.toJson] using h
      | computed slot => cases slot; simp [ObjectKey.toJson, Name.toTaggedJson] at h
      | _ => simp [ObjectKey.toJson, Name.toTaggedJson, ofStringLiteral, ofNumberLiteral] at h
  | .string value span, b, h => by
      cases b with
      | string => simpa [ObjectKey.toJson, ofStringLiteral] using h
      | computed slot => cases slot; simp [ObjectKey.toJson, ofStringLiteral] at h
      | _ => simp [ObjectKey.toJson, Name.toTaggedJson, ofStringLiteral, ofNumberLiteral] at h
  | .number text span, b, h => by
      cases b with
      | number => simpa [ObjectKey.toJson, ofNumberLiteral] using h
      | computed slot => cases slot; simp [ObjectKey.toJson, ofNumberLiteral] at h
      | _ => simp [ObjectKey.toJson, Name.toTaggedJson, ofStringLiteral, ofNumberLiteral] at h
  | .computed ⟨body, span⟩, b, h => by
      cases b with
      | computed slot =>
          obtain ⟨body', span'⟩ := slot
          simp only [ObjectKey.toJson, tagged_inj, List.cons.injEq, Prod.mk.injEq, true_and,
            and_true] at h
          obtain ⟨hbody, rfl⟩ := h
          rw [Expr.toJson_inj body body' hbody]
      | _ => simp [ObjectKey.toJson, Name.toTaggedJson, ofStringLiteral, ofNumberLiteral] at h

theorem ObjectField.listToJson_inj : ∀ a b : List ObjectField,
    ObjectField.listToJson a = ObjectField.listToJson b → a = b
  | [], b, h => by
      cases b with
      | nil => rfl
      | cons field others => cases field; simp [ObjectField.listToJson] at h
  | ⟨key, value, span⟩ :: fields, b, h => by
      cases b with
      | nil => simp [ObjectField.listToJson] at h
      | cons field others =>
          obtain ⟨key', value', span'⟩ := field
          simp only [ObjectField.listToJson, node_inj, List.cons.injEq, Prod.mk.injEq, true_and,
            and_true] at h
          obtain ⟨⟨⟨hkey, hvalue⟩, rfl⟩, hfields⟩ := h
          rw [ObjectKey.toJson_inj key key' hkey, Slot.toJson_inj value value' hvalue,
            ObjectField.listToJson_inj fields others hfields]

theorem Parameters.toJson_inj : ∀ a b : Parameters, a.toJson = b.toJson → a = b
  | ⟨items, span⟩, ⟨items', span'⟩, h => by
      simp only [Parameters.toJson, node_inj, List.cons.injEq, Prod.mk.injEq, array.injEq,
        true_and, and_true] at h
      obtain ⟨hitems, rfl⟩ := h
      rw [Parameter.listToJson_inj items items' hitems]

theorem Parameter.listToJson_inj : ∀ a b : List Parameter,
    Parameter.listToJson a = Parameter.listToJson b → a = b
  | [], b, h => by
      cases b with
      | nil => rfl
      | cons item others => cases item; simp [Parameter.listToJson] at h
  | ⟨binding, fallback, span⟩ :: items, b, h => by
      cases b with
      | nil => simp [Parameter.listToJson] at h
      | cons item others =>
          obtain ⟨binding', fallback', span'⟩ := item
          simp only [Parameter.listToJson, node_inj, List.cons.injEq, Prod.mk.injEq, true_and,
            and_true] at h
          obtain ⟨⟨⟨hbinding, hfallback⟩, rfl⟩, hitems⟩ := h
          rw [Binding.toJson_inj binding binding' hbinding,
            Slot.optionToJson_inj fallback fallback' hfallback,
            Parameter.listToJson_inj items others hitems]

theorem ArrowBody.toJson_inj : ∀ a b : ArrowBody, a.toJson = b.toJson → a = b
  | .expression ⟨body, span⟩, b, h => by
      cases b with
      | expression slot =>
          obtain ⟨body', span'⟩ := slot
          simp only [ArrowBody.toJson, tagged_inj, List.cons.injEq, Prod.mk.injEq, true_and,
            and_true] at h
          obtain ⟨hbody, rfl⟩ := h
          rw [Expr.toJson_inj body body' hbody]
      | block => simp [ArrowBody.toJson] at h
  | .block statements span, b, h => by
      cases b with
      | expression slot => cases slot; simp [ArrowBody.toJson] at h
      | block statements' span' =>
          simp only [ArrowBody.toJson, tagged_inj, List.cons.injEq, Prod.mk.injEq, array.injEq,
            true_and, and_true] at h
          obtain ⟨hstatements, rfl⟩ := h
          rw [Statement.listToJson_inj statements statements' hstatements]

theorem Statement.toJson_inj : ∀ a b : Statement, a.toJson = b.toJson → a = b
  | .variableDeclaration modifier name initializer span, b, h => by
      cases b with
      | variableDeclaration modifier' name' initializer' span' =>
          simp only [Statement.toJson, tagged_inj, List.cons.injEq, Prod.mk.injEq,
            Json.string.injEq, Modifier.word_inj, Name.toJson_inj, true_and, and_true] at h
          obtain ⟨⟨rfl, rfl, hinitializer⟩, rfl⟩ := h
          rw [Slot.optionToJson_inj initializer initializer' hinitializer]
      | functionDeclaration => simp [Statement.toJson] at h
      | expression slot => cases slot; simp [Statement.toJson] at h
  | .functionDeclaration name parameters body span, b, h => by
      cases b with
      | functionDeclaration name' parameters' body' span' =>
          simp only [Statement.toJson, tagged_inj, List.cons.injEq, Prod.mk.injEq, array.injEq,
            Name.toJson_inj, true_and, and_true] at h
          obtain ⟨⟨rfl, hparameters, hbody⟩, rfl⟩ := h
          have hname : Function.Injective Name.toJson := fun _ _ => Name.toJson_inj.1
          rw [List.map_injective_iff.2 hname hparameters, Statement.listToJson_inj body body' hbody]
      | variableDeclaration => simp [Statement.toJson] at h
      | expression slot => cases slot; simp [Statement.toJson] at h
  | .expression ⟨body, span⟩, b, h => by
      cases b with
      | expression slot =>
          obtain ⟨body', span'⟩ := slot
          simp only [Statement.toJson, tagged_inj, List.cons.injEq, Prod.mk.injEq, true_and,
            and_true] at h
          obtain ⟨hbody, rfl⟩ := h
          rw [Expr.toJson_inj body body' hbody]
      | variableDeclaration | functionDeclaration => simp [Statement.toJson] at h

theorem Statement.listToJson_inj : ∀ a b : List Statement,
    Statement.listToJson a = Statement.listToJson b → a = b
  | [], b, h => by
      cases b with
      | nil => rfl
      | cons => simp [Statement.listToJson] at h
  | statement :: statements, b, h => by
      cases b with
      | nil => simp [Statement.listToJson] at h
      | cons other others =>
          obtain ⟨hstatement, hstatements⟩ := List.cons.inj h
          rw [Statement.toJson_inj statement other hstatement,
            Statement.listToJson_inj statements others hstatements]
end

/-! ## Programs -/

/-- Two programs with the same JSON form are the same. -/
theorem Program.toJson_injective : Function.Injective Program.toJson := by
  intro a b h
  obtain ⟨statements, span⟩ := a
  obtain ⟨statements', span'⟩ := b
  simp only [Program.toJson, node_inj, List.cons.injEq, Prod.mk.injEq, array.injEq, true_and,
    and_true] at h
  obtain ⟨hstatements, rfl⟩ := h
  have hstatement : Function.Injective Statement.toJson := fun a b => Statement.toJson_inj a b
  rw [List.map_injective_iff.2 hstatement hstatements]

/-- A program can be told from its dump, without spaces as on indented lines, and what the lines and
spaces add is layout. -/
theorem Program.dump_lossless (p q : Program) :
    (p.toJson.compact = q.toJson.compact ↔ p = q) ∧
      (p.toJson.indented = q.toJson.indented ↔ p = q) ∧
      Json.withoutLayout p.toJson.indented = p.toJson.compact :=
  ⟨(compact_injective.comp Program.toJson_injective).eq_iff,
    (indented_injective.comp Program.toJson_injective).eq_iff, withoutLayout_indented p.toJson⟩

end Scriptlet
