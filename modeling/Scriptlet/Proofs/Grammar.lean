import Scriptlet.Parse.Level
import Scriptlet.Proofs.Reading
import Scriptlet.Token.Spelling
import Scriptlet.Tree.Rebind

/-!
# The grammar

The grammar says which lists of tokens are programs and which trees they build, without a word on
how they are read. Each production holds between a list of tokens and what it builds, given the
`Phrases` one level further in; `Phrases.ofHeight height` holds of derivations with at most
`height` statements and expressions on any path. A comma belongs to the innermost sequence that
may have one, and a default value or an unpacked object ends its chain.

Productions where a later token decides, an object literal that was a pattern or a group that was
a list of parameters, say what the tokens build in the end, by `Expr.toBinding` and
`Expr.toParameters`.
-/

namespace Scriptlet

/-- What the grammar derives: the expressions of a mode and the statements. -/
structure Phrases where
  expr : Mode → List Token → Expr → Prop
  statement : List Token → Statement → Prop

namespace Phrases

/-- Tokens that derive items one after another. -/
inductive Series {α : Type} (item : List Token → α → Prop) : List Token → List α → Prop where
  | nil : Series item [] []
  | cons {tokens value more values} :
      item tokens value → Series item more values → Series item (tokens ++ more) (value :: values)

/-- Tokens that derive one item or more, with commas between them. -/
inductive Listed {α : Type} (item : List Token → α → Prop) : List Token → List α → Prop where
  | last {tokens value} : item tokens value → Listed item tokens [value]
  | more {tokens value comma more values} :
      item tokens value → comma.kind = .comma → Listed item more values →
      Listed item (tokens ++ comma :: more) (value :: values)

/-- What stands between round brackets with commas between its items, the closing bracket
included. -/
inductive Closed {α : Type} (item : List Token → α → Prop) : List Token → List α → Prop where
  | empty {close} : close.kind = .closeRound → Closed item [close] []
  | filled {tokens values close} :
      Listed item tokens values → close.kind = .closeRound → Closed item (tokens ++ [close]) values

variable (below : Phrases)

/-- An expression together with the span of its tokens. -/
inductive IsSlot (mode : Mode) : List Token → Slot → Prop where
  | intro {tokens body} : below.expr mode tokens body → IsSlot mode tokens ⟨body, cover tokens⟩

/-- Statements between curly brackets. -/
inductive IsBlock : List Token → List Statement → Prop where
  | intro {brace tokens statements close} :
      brace.kind = .openCurly → Series below.statement tokens statements →
      close.kind = .closeCurly → IsBlock (brace :: (tokens ++ [close])) statements

/-! ## Object literals -/

/-- The key of an entry of an object literal. -/
inductive IsKey : List Token → ObjectKey → Prop where
  | name {token} : token.kind = .word → IsKey [token] (.name ⟨token.text, token.span⟩)
  | string {token} : token.kind = .string → IsKey [token] (.string token.text token.span)
  | number {token} : token.kind = .number → IsKey [token] (.number token.text token.span)
  | computed {bracket tokens slot close} :
      bracket.kind = .openSquare → below.IsSlot .plain tokens slot → close.kind = .closeSquare →
      IsKey (bracket :: (tokens ++ [close])) (.computed slot)

/-- An entry of an object literal: a name that is key and value, or a key and a value. -/
inductive IsField : List Token → ObjectField → Prop where
  | shorthand {token} :
      token.kind = .word →
      IsField [token] ⟨.name ⟨token.text, token.span⟩, .bare (.name ⟨token.text, token.span⟩),
        cover [token]⟩
  | entry {tokens key colon more value} :
      below.IsKey tokens key → colon.kind = .colon → below.IsSlot .item more value →
      IsField (tokens ++ colon :: more) ⟨key, value, cover (tokens ++ colon :: more)⟩

/-- The entries of an object literal, with commas between them. A comma may follow the last. -/
inductive IsFields : List Token → List ObjectField → Prop where
  | nil : IsFields [] []
  | last {tokens field} : below.IsField tokens field → IsFields tokens [field]
  | more {tokens field comma more fields} :
      below.IsField tokens field → comma.kind = .comma → IsFields more fields →
      IsFields (tokens ++ comma :: more) (field :: fields)

/-- An object literal. -/
inductive IsObject : List Token → Expr → Prop where
  | intro {brace tokens fields close} :
      brace.kind = .openCurly → below.IsFields tokens fields → close.kind = .closeCurly →
      IsObject (brace :: (tokens ++ [close]))
        (.object fields (cover (brace :: (tokens ++ [close]))))

/-! ## Expressions -/

/-- The first part of an expression. A group is what it holds. -/
inductive IsPrimary : List Token → Expr → Prop where
  | name {token} : token.kind = .word → IsPrimary [token] (.name ⟨token.text, token.span⟩)
  | string {token} : token.kind = .string → IsPrimary [token] (.string token.text token.span)
  | number {token} : token.kind = .number → IsPrimary [token] (.number token.text token.span)
  | group {bracket tokens content close} :
      bracket.kind = .openRound → below.expr .group tokens content → close.kind = .closeRound →
      IsPrimary (bracket :: (tokens ++ [close])) content
  | object {tokens literal} : below.IsObject tokens literal → IsPrimary tokens literal

/-- The end of an expression that starts at `start` and has come to `node`: nothing, or a comma and
the rest of a sequence. -/
inductive IsEnd (mode : Mode) (start : Nat) (node : Expr) : List Token → Expr → Prop where
  | stop : IsEnd mode start node [] node
  | comma {comma tokens right} :
      mode.stopAtComma = false → comma.kind = .comma → below.expr mode tokens right →
      IsEnd mode start node (comma :: tokens)
        (.sequence node right (.between start (stopOf tokens)))

/-- An access or a call, applied to the node that an expression from `start` on has come to. -/
inductive IsLink (start : Nat) (node : Expr) : List Token → Expr → Prop where
  | field {token} :
      token.kind = .field →
      IsLink start node [token] (.field node token.text (.between start token.span.stop))
  | index {bracket tokens slot close} :
      bracket.kind = .openSquare → below.IsSlot .plain tokens slot → close.kind = .closeSquare →
      IsLink start node (bracket :: (tokens ++ [close]))
        (.index node slot (.between start close.span.stop))
  | call {bracket tokens arguments} :
      bracket.kind = .openRound → Closed (below.IsSlot .item) tokens arguments →
      IsLink start node (bracket :: tokens)
        (.call node arguments (.between start (stopOf tokens)))

/-- The rest of an expression that starts at `start` and has come to a node: accesses and calls,
then a default value where the mode allows one, then the end. -/
inductive IsTail (mode : Mode) (start : Nat) : Expr → List Token → Expr → Prop where
  | done {node tokens expr} :
      below.IsEnd mode start node tokens expr → IsTail mode start node tokens expr
  | link {node tokens next more expr} :
      below.IsLink start node tokens next → IsTail mode start next more expr →
      IsTail mode start node (tokens ++ more) expr
  | fallback {name assign tokens source more expr} :
      mode.allowDefault = true → assign.kind = .assign → below.IsSlot .item tokens source →
      below.IsEnd mode start (.assign (.name name) source (.between start (stopOf tokens))) more
        expr →
      IsTail mode start (.name name) (assign :: (tokens ++ more)) expr

/-- The parameters of an arrow function: an empty group, or a group whose content stands for
parameters. -/
inductive IsParameters : List Token → Parameters → Prop where
  | empty {bracket close} :
      bracket.kind = .openRound → close.kind = .closeRound →
      IsParameters [bracket, close] ⟨[], cover [bracket, close]⟩
  | group {bracket tokens content close parameters} :
      bracket.kind = .openRound → below.expr .group tokens content → close.kind = .closeRound →
      content.toParameters (cover (bracket :: (tokens ++ [close]))) = .ok parameters →
      IsParameters (bracket :: (tokens ++ [close])) parameters

/-- An expression: a first part and its tail, an object that a pattern takes apart, or an arrow
function. -/
inductive IsExpression (mode : Mode) : List Token → Expr → Prop where
  | chain {tokens node more expr} :
      below.IsPrimary tokens node → below.IsTail mode (startOf tokens) node more expr →
      IsExpression mode (tokens ++ more) expr
  | unpacking {tokens literal target assign more source rest expr} :
      below.IsObject tokens literal → literal.toBinding = .ok target → assign.kind = .assign →
      below.IsSlot .item more source →
      below.IsEnd mode (startOf tokens)
        (.assign target source (.between (startOf tokens) (stopOf more))) rest expr →
      IsExpression mode (tokens ++ assign :: (more ++ rest)) expr
  | arrow {tokens parameters arrow more body} :
      below.IsParameters tokens parameters → arrow.kind = .arrow →
      more.head?.map (·.kind) ≠ some .openCurly → below.IsSlot mode.value more body →
      IsExpression mode (tokens ++ arrow :: more)
        (.arrow parameters (.expression body) (.between (startOf tokens) (stopOf more)))
  | arrowBlock {tokens parameters arrow more statements rest expr} :
      below.IsParameters tokens parameters → arrow.kind = .arrow → below.IsBlock more statements →
      below.IsTail mode.value (startOf tokens)
        (.arrow parameters (.block statements (cover more))
          (.between (startOf tokens) (stopOf more))) rest expr →
      IsExpression mode (tokens ++ arrow :: (more ++ rest)) expr

/-! ## Statements -/

/-- A name that a declaration binds: a word that is not reserved. -/
inductive IsName : List Token → Name → Prop where
  | intro {token} :
      token.kind = .word → Spelling.isReserved token.text = false →
      IsName [token] ⟨token.text, token.span⟩

/-- Whether some tokens start with a reserved word. -/
def startsReserved (tokens : List Token) : Bool :=
  tokens.head?.any fun token => token.kind = .word && Spelling.isReserved token.text

/-- A statement without the redundant semicolons behind it. -/
inductive IsBody : List Token → Statement → Prop where
  | declaration {keyword modifier tokens name semicolon} :
      keyword.kind = .word → Modifier.ofWord? keyword.text = some modifier → modifier ≠ .asConst →
      IsName tokens name → semicolon.kind = .semicolon →
      IsBody (keyword :: (tokens ++ [semicolon]))
        (.variableDeclaration modifier name none (cover (keyword :: (tokens ++ [semicolon]))))
  | initialized {keyword modifier tokens name assign more value semicolon} :
      keyword.kind = .word → Modifier.ofWord? keyword.text = some modifier → IsName tokens name →
      assign.kind = .assign → below.IsSlot .plain more value → semicolon.kind = .semicolon →
      IsBody (keyword :: (tokens ++ assign :: (more ++ [semicolon])))
        (.variableDeclaration modifier name (some value)
          (cover (keyword :: (tokens ++ assign :: (more ++ [semicolon])))))
  | function {keyword tokens name bracket more parameters block statements} :
      keyword.kind = .word → keyword.text = Spelling.functionWord → IsName tokens name →
      bracket.kind = .openRound → Closed IsName more parameters → below.IsBlock block statements →
      IsBody (keyword :: (tokens ++ bracket :: (more ++ block)))
        (.functionDeclaration name parameters statements
          (cover (keyword :: (tokens ++ bracket :: (more ++ block)))))
  | expression {tokens slot semicolon} :
      startsReserved tokens = false → below.IsSlot .plain tokens slot →
      semicolon.kind = .semicolon → IsBody (tokens ++ [semicolon]) (.expression slot)

/-- A statement and the redundant semicolons behind it. -/
inductive IsStatement : List Token → Statement → Prop where
  | intro {tokens statement semicolons} :
      below.IsBody tokens statement → (∀ token ∈ semicolons, token.kind = .semicolon) →
      IsStatement (tokens ++ semicolons) statement

/-! ## Levels -/

/-- Nothing is derived without a statement or an expression. -/
def lowest : Phrases where
  expr _ _ _ := False
  statement _ _ := False

/-- What is derived with one more statement or expression above the given phrases. -/
def above : Phrases where
  expr := below.IsExpression
  statement := below.IsStatement

/-- What is derived with at most so many statements and expressions on any path. -/
def ofHeight : Nat → Phrases
  | 0 => lowest
  | height + 1 => above (ofHeight height)

/-! ## First tokens -/

/-- The kinds that expressions and statements start with. -/
def opensPhrase : Kind → Bool
  | .word | .string | .number | .openRound | .openCurly => true
  | _ => false

/-- Some tokens start as expressions and statements do. -/
def Opening (tokens : List Token) : Prop :=
  ∃ token more, tokens = token :: more ∧ opensPhrase token.kind = true

/-- Every expression and every statement starts as expressions and statements do. -/
structure Opens (phrases : Phrases) : Prop where
  expr {mode tokens expr} : phrases.expr mode tokens expr → Opening tokens
  statement {tokens statement} : phrases.statement tokens statement → Opening tokens

namespace Opening

variable {tokens : List Token} {token : Token}

theorem intro (more : List Token) (h : opensPhrase token.kind = true) : Opening (token :: more) :=
  ⟨token, more, rfl, h⟩

theorem append (h : Opening tokens) (more : List Token) : Opening (tokens ++ more) := by
  obtain ⟨token, rest, rfl, hkind⟩ := h
  exact ⟨token, rest ++ more, rfl, hkind⟩

theorem ne_nil (h : Opening tokens) : tokens ≠ [] := by
  obtain ⟨token, rest, rfl, _⟩ := h
  exact List.cons_ne_nil _ _

end Opening

/-- One item is a series. -/
theorem Series.single {α : Type} {item : List Token → α → Prop} {tokens : List Token} {value : α}
    (h : item tokens value) : Series item tokens [value] := by
  simpa using Series.cons h .nil

theorem Closed.ne_nil {α : Type} {item : List Token → α → Prop} {tokens : List Token}
    {values : List α} (h : Closed item tokens values) : tokens ≠ [] := by
  cases h <;> simp

variable {below : Phrases} {tokens : List Token}

theorem IsSlot.opening {mode : Mode} {slot : Slot} (h : below.IsSlot mode tokens slot)
    (hbelow : below.Opens) : Opening tokens := by
  cases h with
  | intro hexpr => exact hbelow.expr hexpr

theorem IsName.opening {name : Name} (h : IsName tokens name) : Opening tokens := by
  cases h with
  | intro hkind => exact .intro _ (by rw [hkind]; rfl)

theorem IsBlock.ne_nil {statements : List Statement} (h : below.IsBlock tokens statements) :
    tokens ≠ [] := by
  cases h
  exact List.cons_ne_nil _ _

/-- A key does not start with the bracket that closes its literal. -/
theorem IsKey.first {key : ObjectKey} (h : below.IsKey tokens key) :
    ∃ first rest, tokens = first :: rest ∧ first.kind ≠ .closeCurly := by
  cases h with
  | name hkind | string hkind | number hkind | computed hkind =>
      exact ⟨_, _, rfl, by simp [hkind]⟩

/-- A field does not start with the bracket that closes its literal. -/
theorem IsField.first {field : ObjectField} (h : below.IsField tokens field) :
    ∃ first rest, tokens = first :: rest ∧ first.kind ≠ .closeCurly := by
  cases h with
  | shorthand hkind => exact ⟨_, _, rfl, by simp [hkind]⟩
  | entry hkey =>
      obtain ⟨first, rest, rfl, hkind⟩ := hkey.first
      exact ⟨first, _, rfl, hkind⟩

theorem IsField.ne_nil {field : ObjectField} (h : below.IsField tokens field) : tokens ≠ [] := by
  obtain ⟨first, rest, rfl, -⟩ := h.first
  exact List.cons_ne_nil _ _

theorem IsObject.opening {literal : Expr} (h : below.IsObject tokens literal) : Opening tokens := by
  cases h with
  | intro hbrace => exact .intro _ (by rw [hbrace]; rfl)

theorem IsLink.ne_nil {start : Nat} {node next : Expr} (h : below.IsLink start node tokens next) :
    tokens ≠ [] := by
  cases h <;> simp

theorem IsPrimary.opening {node : Expr} (h : below.IsPrimary tokens node) : Opening tokens := by
  cases h with
  | name hkind | string hkind | number hkind | group hkind =>
      exact .intro _ (by rw [hkind]; rfl)
  | object hobject => exact hobject.opening

theorem IsParameters.opening {parameters : Parameters} (h : below.IsParameters tokens parameters) :
    Opening tokens := by
  cases h with
  | empty hkind | group hkind => exact .intro _ (by rw [hkind]; rfl)

/-- Parameters start where their tokens start. -/
theorem IsParameters.offset_eq {parameters : Parameters}
    (h : below.IsParameters tokens parameters) :
    parameters.span.offset = startOf tokens := by
  cases h with
  | empty => rfl
  | @group bracket tokens content close _ _ _ _ hparameters =>
      simp only [Expr.toParameters, bind, Except.bind] at hparameters
      split at hparameters
      · cases hparameters
      · cases hparameters
        rfl

theorem IsExpression.opening {mode : Mode} {expr : Expr} (h : below.IsExpression mode tokens expr) :
    Opening tokens := by
  cases h with
  | chain hprimary => exact hprimary.opening.append _
  | unpacking hobject => exact hobject.opening.append _
  | arrow hparameters | arrowBlock hparameters => exact hparameters.opening.append _

theorem IsStatement.opening {statement : Statement} (h : below.IsStatement tokens statement)
    (hbelow : below.Opens) : Opening tokens := by
  cases h with
  | intro hbody =>
      refine Opening.append ?_ _
      cases hbody with
      | declaration hkind | initialized hkind | function hkind =>
          exact .intro _ (by rw [hkind]; rfl)
      | expression _ hslot => exact (hslot.opening hbelow).append _

/-- A first part of an expression is one alone. -/
theorem IsPrimary.isExpression {mode : Mode} {node : Expr} (h : below.IsPrimary tokens node) :
    below.IsExpression mode tokens node := by
  simpa using IsExpression.chain h (.done .stop)

/-- No semicolon needs to follow a statement. -/
theorem IsBody.isStatement {statement : Statement} (h : below.IsBody tokens statement) :
    below.IsStatement tokens statement := by
  simpa using IsStatement.intro h (List.forall_mem_nil _)

/-- Expressions and statements of every level start as such. -/
theorem opens_ofHeight (height : Nat) : (ofHeight height).Opens := by
  induction height with
  | zero => exact ⟨False.elim, False.elim⟩
  | succ height ih => exact ⟨IsExpression.opening, fun h => IsStatement.opening h ih⟩

end Phrases

/-- Tokens derive the statements of a program, with at most `height` statements and expressions on
any path of the derivation. -/
def Derives (height : Nat) (tokens : List Token) (statements : List Statement) : Prop :=
  Phrases.Series (Phrases.ofHeight height).statement tokens statements

end Scriptlet
