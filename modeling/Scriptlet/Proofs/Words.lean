import Mathlib
import Scriptlet.Proofs.Placement

/-!
# The words of a program

The words of a program are its names, strings, numbers, names of fields and the words that start its
declarations. A tree lists them from left to right, a name that is key and value at once only once.
They are the words of the text: what is read again as a binding keeps its words, and each production
of the grammar lists the words of its parts in the order of its tokens.
-/

namespace Scriptlet

/-- A word of a program as its tree holds it. -/
inductive Word where
  | keyword (text : String)
  | name (name : Name)
  | string (value : String) (span : Span)
  | number (text : String) (span : Span)
  | field (name : String) (span : Span)

/-! ## The words of a tree -/

/-- Whether a binding is a name. -/
def Binding.isName (name : Name) : Binding → Bool
  | .name found => found = name
  | .pattern _ _ => false

/-- Whether an expression is a name. -/
def Expr.isName (name : Name) : Expr → Bool
  | .name found => found = name
  | _ => false

/-- Whether a key is the value of its entry as well: the entry is a name alone. -/
def ObjectKey.isShared (value : Expr) : ObjectKey → Bool
  | .name key => value.isName key
  | _ => false

mutual
/-- The words of a binding. -/
def Binding.words : Binding → List Word
  | .name name => [.name name]
  | .pattern fields _ => PatternField.words fields

/-- The words of the fields of a pattern. -/
def PatternField.words : List PatternField → List Word
  | [] => []
  | ⟨source, destination, _⟩ :: rest =>
    .name source :: ((if destination.isName source then [] else destination.words) ++
      PatternField.words rest)
end

mutual
/-- The words of an expression. -/
def Expr.words : Expr → List Word
  | .name name => [.name name]
  | .string value span => [.string value span]
  | .number text span => [.number text span]
  | .field host name span => host.words ++ [.field name span]
  | .index host index _ => host.words ++ index.words
  | .call host arguments _ => host.words ++ Slot.wordsAll arguments
  | .sequence left right _ => left.words ++ right.words
  | .object fields _ => ObjectField.words fields
  | .assign target source _ => target.words ++ source.words
  | .arrow parameters body _ => parameters.words ++ body.words

/-- The words of a slot. -/
def Slot.words : Slot → List Word
  | ⟨body, _⟩ => body.words

/-- The words of slots. -/
def Slot.wordsAll : List Slot → List Word
  | [] => []
  | slot :: rest => slot.words ++ Slot.wordsAll rest

/-- The words of a key. -/
def ObjectKey.words : ObjectKey → List Word
  | .name name => [.name name]
  | .string value span => [.string value span]
  | .number text span => [.number text span]
  | .computed slot => slot.words

/-- The words of the fields of an object literal. -/
def ObjectField.words : List ObjectField → List Word
  | [] => []
  | ⟨key, ⟨value, _⟩, _⟩ :: rest =>
    key.words ++ ((if key.isShared value then [] else value.words) ++ ObjectField.words rest)

/-- The words of the items of a list of parameters. -/
def Parameter.words : List Parameter → List Word
  | [] => []
  | ⟨binding, none, _⟩ :: rest => binding.words ++ Parameter.words rest
  | ⟨binding, some fallback, _⟩ :: rest =>
    (binding.words ++ fallback.words) ++ Parameter.words rest

/-- The words of parameters. -/
def Parameters.words : Parameters → List Word
  | ⟨items, _⟩ => Parameter.words items

/-- The words of what stands after an arrow. -/
def ArrowBody.words : ArrowBody → List Word
  | .expression slot => slot.words
  | .block statements _ => Statement.wordsAll statements

/-- The words of a statement. -/
def Statement.words : Statement → List Word
  | .variableDeclaration modifier name none _ => [.keyword modifier.word, .name name]
  | .variableDeclaration modifier name (some initializer) _ =>
    .keyword modifier.word :: .name name :: initializer.words
  | .functionDeclaration name parameters body _ =>
    .keyword Spelling.functionWord :: .name name ::
      (parameters.map .name ++ Statement.wordsAll body)
  | .expression slot => slot.words

/-- The words of statements. -/
def Statement.wordsAll : List Statement → List Word
  | [] => []
  | statement :: rest => statement.words ++ Statement.wordsAll rest
end

/-- The words of a program. -/
def Program.words (program : Program) : List Word :=
  Statement.wordsAll program.statements

/-! ## Expressions read again as bindings -/

mutual
/-- A binding has the words of the expression that stands for it. -/
theorem Expr.StandsFor.words_eq : ∀ {expr : Expr} {binding : Binding}, expr.StandsFor binding →
    binding.words = expr.words ∧ ∀ name, binding.isName name = expr.isName name
  | _, _, .name => ⟨rfl, fun _ => rfl⟩
  | _, _, .object hitems => ⟨ObjectField.StandsFor.words_eq hitems, fun _ => rfl⟩

theorem ObjectField.StandsFor.words_eq : ∀ {fields : List ObjectField}
    {items : List PatternField}, List.Forall₂ ObjectField.StandsFor fields items →
      PatternField.words items = ObjectField.words fields
  | _, _, .nil => rfl
  | _, _, .cons (.intro hvalue) hitems => by
      obtain ⟨hwords, hname⟩ := Expr.StandsFor.words_eq hvalue
      rw [PatternField.words, ObjectField.words, hwords, hname,
        ObjectField.StandsFor.words_eq hitems]
      rfl
end

/-- The elements of a sequence have its words. -/
theorem Expr.words_elements : ∀ expr : Expr, expr.elements.flatMap Expr.words = expr.words
  | .sequence left right _ => by
      rw [Expr.elements, List.flatMap_cons, Expr.words_elements right, Expr.words]
  | .name _ | .string _ _ | .number _ _ | .field _ _ _ | .index _ _ _ | .call _ _ _
  | .object _ _ | .assign _ _ _ | .arrow _ _ _ => List.append_nil _

/-- Parameters have the words of the content of their group. -/
theorem Expr.toParameters_words {content : Expr} {span : Span} {parameters : Parameters}
    (h : content.toParameters span = .ok parameters) : parameters.words = content.words := by
  obtain ⟨-, hitems⟩ := (Expr.toParameters_eq_ok_iff _ _ _).1 h
  obtain ⟨items, outer⟩ := parameters
  rw [Parameters.words, ← Expr.words_elements]
  clear h
  dsimp only at hitems
  generalize content.elements = elements at hitems ⊢
  induction hitems with
  | nil => rfl
  | cons hitem _ ih =>
      cases hitem with
      | assign =>
          rw [Parameter.words, ih]
          rfl
      | plain hbinding => rw [Parameter.words, hbinding.words_eq.1, ih, List.flatMap_cons]

/-! ## The words of a text -/

/-- Whether the tokens of a kind are words. -/
def Kind.isWordy : Kind → Bool
  | .word | .string | .number | .field => true
  | _ => false

/-- The word of a tree that a token is: with the same text, and in the same place but for a keyword,
which has none, and for an access to a field, which stops where its token does. -/
inductive Word.Is : Word → Token → Prop where
  | keyword {token} : token.kind = .word → Word.Is (.keyword token.text) token
  | name {token} : token.kind = .word → Word.Is (.name ⟨token.text, token.span⟩) token
  | string {token} : token.kind = .string → Word.Is (.string token.text token.span) token
  | number {token} : token.kind = .number → Word.Is (.number token.text token.span) token
  | field {token span} :
      token.kind = .field → span.stop = token.span.stop → Word.Is (.field token.text span) token

theorem Word.Is.isWordy {word : Word} {token : Token} (h : word.Is token) :
    token.kind.isWordy = true := by
  cases h with
  | keyword hkind | name hkind | string hkind | number hkind | field hkind => rw [hkind]; rfl

/-- The words of some tokens, one after another. -/
def Spell (words : List Word) (tokens : List Token) : Prop :=
  List.Forall₂ Word.Is words (tokens.filter (·.kind.isWordy))

namespace Spell

variable {words more : List Word} {word : Word} {token : Token} {tokens before after : List Token}

theorem nil : Spell [] [] :=
  List.Forall₂.nil

theorem append (h : Spell words before) (hmore : Spell more after) :
    Spell (words ++ more) (before ++ after) := by
  unfold Spell
  rw [List.filter_append]
  exact List.rel_append h hmore

/-- A token that is a word comes first. -/
theorem cons (hword : word.Is token) (h : Spell words tokens) :
    Spell (word :: words) (token :: tokens) := by
  simp only [Spell, List.filter_cons, hword.isWordy, if_true]
  exact .cons hword h

theorem single (hword : word.Is token) : Spell [word] [token] :=
  cons hword nil

/-- A token that is no word adds none. -/
theorem skip (hkind : token.kind.isWordy = false) (h : Spell words tokens) :
    Spell words (token :: tokens) := by
  simpa only [Spell, List.filter_cons, hkind, Bool.false_eq_true, if_false] using h

/-- Tokens that are no words add none behind others. -/
theorem concat (h : Spell words tokens) (hkinds : ∀ token ∈ after, token.kind.isWordy = false) :
    Spell words (tokens ++ after) := by
  have hnone : after.filter (·.kind.isWordy) = [] := by simpa using hkinds
  unfold Spell
  rwa [List.filter_append, hnone, List.append_nil]

theorem concat_one (h : Spell words tokens) (hkind : token.kind.isWordy = false) :
    Spell words (tokens ++ [token]) :=
  h.concat (List.forall_mem_singleton.2 hkind)

end Spell

/-- A word for a modifier is the word of that modifier. -/
theorem Modifier.word_of_ofWord? {text : String} {modifier : Modifier}
    (h : ofWord? text = some modifier) : modifier.word = text := by
  unfold ofWord? at h
  split at h <;> cases h <;> rfl

theorem Slot.wordsAll_eq_flatMap (slots : List Slot) :
    Slot.wordsAll slots = slots.flatMap Slot.words := by
  induction slots with
  | nil => rfl
  | cons slot slots ih => rw [Slot.wordsAll, List.flatMap_cons, ih]

theorem Statement.wordsAll_eq_flatMap (statements : List Statement) :
    Statement.wordsAll statements = statements.flatMap Statement.words := by
  induction statements with
  | nil => rfl
  | cons statement statements ih => rw [Statement.wordsAll, List.flatMap_cons, ih]

/-- The words of fields are those of the first one and of the rest. -/
theorem ObjectField.words_cons (field : ObjectField) (fields : List ObjectField) :
    ObjectField.words (field :: fields) =
      ObjectField.words [field] ++ ObjectField.words fields := by
  obtain ⟨key, ⟨value, _⟩, _⟩ := field
  simp [ObjectField.words]

/-! ## Productions -/

/-- Whatever some phrases derive has the words of the tokens that it is derived from. -/
structure Phrases.Spells (phrases : Phrases) : Prop where
  expr {mode tokens expr} :
    phrases.expr mode tokens expr → Ordered tokens → Spell expr.words tokens
  statement {tokens statement} :
    phrases.statement tokens statement → Ordered tokens → Spell statement.words tokens

namespace Phrases

variable {tokens before : List Token} {mode : Mode} {start : Nat} {node expr : Expr}

/-! ### Lists -/

section

variable {α : Type} {item : List Token → α → Prop} {values : List α} (toWords : α → List Word)
  (hitem : ∀ tokens value, item tokens value → Ordered tokens → Spell (toWords value) tokens)

include hitem

theorem Series.spell (h : Series item tokens values) (hordered : Ordered tokens) :
    Spell (values.flatMap toWords) tokens := by
  induction h with
  | nil => exact .nil
  | cons hvalue _ ih => exact (hitem _ _ hvalue hordered.left).append (ih hordered.right)

theorem Listed.spell (h : Listed item tokens values) (hordered : Ordered tokens) :
    Spell (values.flatMap toWords) tokens := by
  induction h with
  | last hvalue =>
      rw [List.flatMap_singleton]
      exact hitem _ _ hvalue hordered
  | more hvalue hcomma _ ih =>
      exact (hitem _ _ hvalue hordered.left).append
        (.skip (by rw [hcomma]; rfl) (ih hordered.right.tail))

theorem Closed.spell (h : Closed item tokens values) (hordered : Ordered tokens) :
    Spell (values.flatMap toWords) tokens := by
  cases h with
  | empty hclose => exact .skip (by rw [hclose]; rfl) .nil
  | filled hlisted hclose =>
      exact (hlisted.spell toWords hitem hordered.left).concat_one (by rw [hclose]; rfl)

end

theorem IsName.spell {name : Name} (h : IsName tokens name) : Spell [.name name] tokens := by
  cases h with
  | intro hkind => exact .single (.name hkind)

variable {below : Phrases} (hspells : below.Spells)

include hspells

/-! ### Slots, blocks and object literals -/

theorem IsSlot.spell {slot : Slot} (h : below.IsSlot mode tokens slot)
    (hordered : Ordered tokens) : Spell slot.words tokens := by
  cases h with
  | intro hexpr => exact hspells.expr hexpr hordered

theorem IsBlock.spell {statements : List Statement} (h : below.IsBlock tokens statements)
    (hordered : Ordered tokens) : Spell (Statement.wordsAll statements) tokens := by
  cases h with
  | intro hbrace hseries hclose =>
      rw [Statement.wordsAll_eq_flatMap]
      have hinner := hseries.spell Statement.words (fun _ _ => hspells.statement)
        hordered.tail.left
      exact .skip (by rw [hbrace]; rfl) (hinner.concat_one (by rw [hclose]; rfl))

theorem IsKey.spell {key : ObjectKey} (h : below.IsKey tokens key) (hordered : Ordered tokens) :
    Spell key.words tokens := by
  cases h with
  | name hkind => exact .single (.name hkind)
  | string hkind => exact .single (.string hkind)
  | number hkind => exact .single (.number hkind)
  | computed hbracket hslot hclose =>
      have hinner := hslot.spell hspells hordered.tail.left
      exact .skip (by rw [hbracket]; rfl) (hinner.concat_one (by rw [hclose]; rfl))

variable (hplaces : below.Places) (hopens : below.Opens)

include hplaces hopens

omit hspells in
/-- A key before a colon is not its own value, because the value stands further on. -/
theorem isShared_eq_false {key : ObjectKey} {colon : Token} {more : List Token} {value : Slot}
    (hkey : below.IsKey tokens key) (hslot : below.IsSlot .item more value)
    (hordered : Ordered (tokens ++ colon :: more)) : key.isShared value.body = false := by
  cases hkey with
  | string | number | computed => rfl
  | @name token =>
      have hbody := (hslot.placed hplaces hopens hordered.right.tail).children _
        (List.mem_singleton.2 rfl)
      obtain ⟨first, hfirst, hoffset⟩ := hbody.here.span.starts
      have hafter := hordered.stop_le (List.mem_singleton.2 rfl) (List.mem_cons_of_mem colon hfirst)
      have hnonempty := hordered.left.nonempty token (List.mem_singleton.2 rfl)
      obtain ⟨body, span⟩ := value
      show body.isName ⟨token.text, token.span⟩ = false
      cases body with
      | name found =>
          refine decide_eq_false fun hsame => ?_
          have hspan : found.span.offset = token.span.offset := by rw [hsame]
          have hfound : found.span.offset = first.span.offset := hoffset
          omega
      | _ => rfl

theorem IsField.spell {field : ObjectField} (h : below.IsField tokens field)
    (hordered : Ordered tokens) : Spell (ObjectField.words [field]) tokens := by
  cases h with
  | @shorthand token hkind =>
      have hwords : ObjectField.words [⟨.name ⟨token.text, token.span⟩,
          .bare (.name ⟨token.text, token.span⟩), cover [token]⟩] =
          [.name ⟨token.text, token.span⟩] := by
        simp [ObjectField.words, Slot.bare, ObjectKey.isShared, Expr.isName, ObjectKey.words]
      rw [hwords]
      exact .single (.name hkind)
  | @entry tokens key colon more value hkey hcolon hslot =>
      have hshared := isShared_eq_false hplaces hopens hkey hslot hordered
      have hvalue := hslot.spell hspells hordered.right.tail
      obtain ⟨body, span⟩ := value
      have hwords : ObjectField.words [⟨key, ⟨body, span⟩, cover (tokens ++ colon :: more)⟩] =
          key.words ++ Slot.words ⟨body, span⟩ := by
        simp [ObjectField.words, show key.isShared body = false from hshared, Slot.words]
      rw [hwords]
      exact (hkey.spell hspells hordered.left).append (.skip (by rw [hcolon]; rfl) hvalue)

theorem IsFields.spell {fields : List ObjectField} (h : below.IsFields tokens fields)
    (hordered : Ordered tokens) : Spell (ObjectField.words fields) tokens := by
  induction h with
  | nil => exact .nil
  | last hfield => exact hfield.spell hspells hplaces hopens hordered
  | more hfield hcomma _ ih =>
      rw [ObjectField.words_cons]
      exact (hfield.spell hspells hplaces hopens hordered.left).append
        (.skip (by rw [hcomma]; rfl) (ih hordered.right.tail))

theorem IsObject.spell {literal : Expr} (h : below.IsObject tokens literal)
    (hordered : Ordered tokens) : Spell literal.words tokens := by
  cases h with
  | intro hbrace hfields hclose =>
      have hinner := hfields.spell hspells hplaces hopens hordered.tail.left
      exact .skip (by rw [hbrace]; rfl) (hinner.concat_one (by rw [hclose]; rfl))

/-! ### Expressions -/

theorem IsPrimary.spell (h : below.IsPrimary tokens node) (hordered : Ordered tokens) :
    Spell node.words tokens := by
  cases h with
  | name hkind => exact .single (.name hkind)
  | string hkind => exact .single (.string hkind)
  | number hkind => exact .single (.number hkind)
  | group hbracket hcontent hclose =>
      have hinner := hspells.expr hcontent hordered.tail.left
      exact .skip (by rw [hbracket]; rfl) (hinner.concat_one (by rw [hclose]; rfl))
  | object hobject => exact hobject.spell hspells hplaces hopens hordered

omit hplaces hopens in
theorem IsEnd.spell (h : below.IsEnd mode start node tokens expr) (hnode : Spell node.words before)
    (hordered : Ordered tokens) : Spell expr.words (before ++ tokens) := by
  cases h with
  | stop => simpa using hnode
  | comma _ hcomma hright =>
      exact hnode.append (.skip (by rw [hcomma]; rfl) (hspells.expr hright hordered.tail))

omit hplaces hopens in
/-- An access or a call has the words of what it is applied to and its own. -/
theorem IsLink.spell {next : Expr} (h : below.IsLink (startOf before) node tokens next)
    (hne : before ≠ []) (hnode : Spell node.words before) (hordered : Ordered (before ++ tokens)) :
    Spell next.words (before ++ tokens) := by
  cases h with
  | @field token hkind =>
      -- An access stops where its token does, because it starts before that.
      obtain ⟨first, hfirst⟩ := List.exists_mem_of_ne_nil before hne
      have hstart := hordered.left.startOf_le hfirst
      have hbefore := hordered.stop_le hfirst (List.mem_singleton.2 rfl)
      have hnonempty := hordered.left.nonempty first hfirst
      have hstop := hordered.right.nonempty token (List.mem_singleton.2 rfl)
      exact hnode.append (.single (.field hkind (Span.stop_between (by omega))))
  | index hbracket hslot hclose =>
      have hindex := hslot.spell hspells hordered.right.tail.left
      exact hnode.append (.skip (by rw [hbracket]; rfl)
        (hindex.concat_one (by rw [hclose]; rfl)))
  | @call _ _ arguments hbracket hclosed =>
      have harguments := hclosed.spell Slot.words (fun _ _ hslot => hslot.spell hspells)
        hordered.right.tail
      rw [← Slot.wordsAll_eq_flatMap] at harguments
      exact hnode.append (.skip (by rw [hbracket]; rfl) harguments)

omit hplaces hopens in
theorem IsTail.spell (h : below.IsTail mode (startOf before) node tokens expr) (hne : before ≠ [])
    (hnode : Spell node.words before) (hordered : Ordered (before ++ tokens)) :
    Spell expr.words (before ++ tokens) := by
  generalize hstart : startOf before = start at h
  induction h generalizing before with
  | done hend => exact hend.spell hspells hnode hordered.right
  | @link node tokens next more expr hlink _ ih =>
      subst hstart
      rw [← List.append_assoc] at hordered ⊢
      exact ih (by simp [hne]) (hlink.spell hspells hne hnode hordered.left) hordered
        (startOf_append tokens hne)
  | @fallback name assign tokens source more expr _ hassign hslot hend =>
      have hsplit :
          before ++ assign :: (tokens ++ more) = (before ++ assign :: tokens) ++ more := by
        simp
      rw [hsplit] at hordered ⊢
      have hsource := hslot.spell hspells hordered.left.right.tail
      exact hend.spell hspells (hnode.append (.skip (by rw [hassign]; rfl) hsource)) hordered.right

omit hplaces hopens in
theorem IsParameters.spell {parameters : Parameters} (h : below.IsParameters tokens parameters)
    (hordered : Ordered tokens) : Spell parameters.words tokens := by
  cases h with
  | empty hbracket hclose =>
      exact .skip (by rw [hbracket]; rfl) (.skip (by rw [hclose]; rfl) .nil)
  | group hbracket hcontent hclose hparameters =>
      rw [Expr.toParameters_words hparameters]
      have hinner := hspells.expr hcontent hordered.tail.left
      exact .skip (by rw [hbracket]; rfl) (hinner.concat_one (by rw [hclose]; rfl))

theorem IsExpression.spell (h : below.IsExpression mode tokens expr) (hordered : Ordered tokens) :
    Spell expr.words tokens := by
  cases h with
  | chain hprimary htail =>
      exact htail.spell hspells hprimary.opening.ne_nil
        (hprimary.spell hspells hplaces hopens hordered.left) hordered
  | @unpacking tokens literal target assign more source rest expr hobject htarget hassign hslot
      hend =>
      rw [← List.cons_append, ← List.append_assoc] at hordered ⊢
      have htargetWords := hobject.spell hspells hplaces hopens hordered.left.left
      rw [← ((Expr.toBinding_eq_ok_iff _ _).1 htarget).words_eq.1] at htargetWords
      have hsource := hslot.spell hspells hordered.left.right.tail
      exact hend.spell hspells (htargetWords.append (.skip (by rw [hassign]; rfl) hsource))
        hordered.right
  | arrow hparameters harrow _ hslot =>
      exact (hparameters.spell hspells hordered.left).append
        (.skip (by rw [harrow]; rfl) (hslot.spell hspells hordered.right.tail))
  | @arrowBlock tokens parameters arrow more statements rest expr hparameters harrow hblock htail =>
      have hne := hparameters.opening.ne_nil
      rw [← List.cons_append, ← List.append_assoc] at hordered ⊢
      rw [← startOf_append (arrow :: more) hne] at htail
      have hbody := hblock.spell hspells hordered.left.right.tail
      exact htail.spell hspells (by simp) ((hparameters.spell hspells hordered.left.left).append
        (.skip (by rw [harrow]; rfl) hbody)) hordered

/-! ### Statements -/

omit hplaces hopens in
theorem IsBody.spell {statement : Statement} (h : below.IsBody tokens statement)
    (hordered : Ordered tokens) : Spell statement.words tokens := by
  cases h with
  | declaration hkeyword hmodifier _ hname hsemicolon =>
      rw [Statement.words, Modifier.word_of_ofWord? hmodifier]
      exact .cons (.keyword hkeyword) (hname.spell.concat_one (by rw [hsemicolon]; rfl))
  | initialized hkeyword hmodifier hname hassign hslot hsemicolon =>
      rw [Statement.words, Modifier.word_of_ofWord? hmodifier]
      have hvalue := hslot.spell hspells hordered.tail.right.tail.left
      exact .cons (.keyword hkeyword) (hname.spell.append (.skip (by rw [hassign]; rfl)
        (hvalue.concat_one (by rw [hsemicolon]; rfl))))
  | @function keyword name _ bracket more parameters block statements hkeyword htext hname hbracket
      hclosed hblock =>
      have hinner := hordered.tail.right.tail
      have hparameters := hclosed.spell (fun name => [.name name])
        (fun _ _ hname _ => hname.spell) hinner.left
      rw [← List.map_eq_flatMap] at hparameters
      rw [Statement.words, ← htext]
      exact .cons (.keyword hkeyword) (hname.spell.append (.skip (by rw [hbracket]; rfl)
        (hparameters.append (hblock.spell hspells hinner.right))))
  | expression _ hslot hsemicolon =>
      exact (hslot.spell hspells hordered.left).concat_one (by rw [hsemicolon]; rfl)

omit hplaces hopens in
theorem IsStatement.spell {statement : Statement} (h : below.IsStatement tokens statement)
    (hordered : Ordered tokens) : Spell statement.words tokens := by
  cases h with
  | intro hbody hkinds =>
      exact (hbody.spell hspells hordered.left).concat
        fun token hmem => by rw [hkinds token hmem]; rfl

omit hspells hplaces hopens in
/-- Whatever is derived has the words of its tokens. -/
theorem spells_ofHeight (height : Nat) : (ofHeight height).Spells := by
  induction height with
  | zero => exact ⟨False.elim, False.elim⟩
  | succ height ih =>
      exact ⟨fun h => IsExpression.spell ih (places_ofHeight height) (opens_ofHeight height) h,
        fun h => IsStatement.spell ih h⟩

end Phrases

/-! ## Programs -/

/-- The words of a program are the words of its text, in their order: each word of the tree is the
token of the same index among the words, strings, numbers and accesses to fields of the text. -/
theorem Program.words_of_tokens {source : String} {program : Program}
    (h : Program.parse source = .ok program) :
    ∃ found, tokens source = .ok found ∧
      List.Forall₂ Word.Is program.words (found.filter (·.kind.isWordy)) := by
  obtain ⟨found, hfound, hderives, -⟩ := Program.derives_of_parse h
  obtain ⟨there, hreads, -⟩ := Reads.start_tokens_eq_ok_iff.1 (tokens_eq_ok_iff.1 hfound)
  refine ⟨found, hfound, ?_⟩
  unfold Program.words
  rw [Statement.wordsAll_eq_flatMap]
  exact Phrases.Series.spell Statement.words
    (fun _ _ => (Phrases.spells_ofHeight nestingLimit).statement) hderives hreads.ordered.1

set_option maxRecDepth 4000 in
/-- A call and an object literal, one of whose fields is a name alone, have the words of their
text. -/
theorem Program.words_of_tokens_shorthand :
    ∃ program, Program.parse "f(\x7ba, b: 'x'\x7d).c;" = .ok program ∧
      ∃ found, tokens "f(\x7ba, b: 'x'\x7d).c;" = .ok found ∧
        List.Forall₂ Word.Is program.words (found.filter (·.kind.isWordy)) := by
  have hprogram : Program.parse "f(\x7ba, b: 'x'\x7d).c;" =
      .ok ⟨[.expression ⟨.field (.call (.name ⟨"f", ⟨0, 1⟩⟩)
        [⟨.object [⟨.name ⟨"a", ⟨3, 1⟩⟩, ⟨.name ⟨"a", ⟨3, 1⟩⟩, ⟨3, 1⟩⟩, ⟨3, 1⟩⟩,
          ⟨.name ⟨"b", ⟨6, 1⟩⟩, ⟨.string "x" ⟨9, 3⟩, ⟨9, 3⟩⟩, ⟨6, 6⟩⟩] ⟨2, 11⟩, ⟨2, 11⟩⟩] ⟨0, 14⟩)
        "c" ⟨0, 16⟩, ⟨0, 16⟩⟩], ⟨0, 17⟩⟩ := by cbv
  exact ⟨_, hprogram, Program.words_of_tokens hprogram⟩

end Scriptlet
