import Mathlib
import Scriptlet.Number.Binary64
import Scriptlet.Proofs.Splitting
import Scriptlet.Proofs.Words

/-!
# Numbers are plain decimals

The text of every number, as a token or anywhere in a tree, is digits or digits on both sides of a
point: a form that is a number says so, and the words of a tree are those of its text. Such a text
is a numeral without a sign, so reading it gives a number that is neither negative nor no number.
-/

namespace Scriptlet

open Spelling Text

/-- Digits, or digits on both sides of a point. -/
inductive IsDecimal : List Char → Prop where
  | whole {digits} : digits ≠ [] → (∀ d ∈ digits, d.isDigit = true) → IsDecimal digits
  | point {digits places} :
      digits ≠ [] → (∀ d ∈ digits, d.isDigit = true) →
      places ≠ [] → (∀ d ∈ places, d.isDigit = true) → IsDecimal (digits ++ '.' :: places)

/-! ## Reading a decimal -/

section Reading

variable {text digits places : List Char} {c : Char}

/-- A decimal starts with a digit. -/
theorem IsDecimal.exists_cons (h : IsDecimal text) :
    ∃ c rest, text = c :: rest ∧ c.isDigit = true := by
  cases h with
  | whole hne hall | point hne hall =>
      obtain ⟨c, rest, rfl⟩ := List.exists_cons_of_ne_nil hne
      exact ⟨c, _, rfl, hall c (by simp)⟩

theorem span_isDigit (hall : ∀ d ∈ digits, d.isDigit = true) (rest : List Char)
    (hrest : ∀ c ∈ rest.head?, c.isDigit = false) :
    (digits ++ rest).span Char.isDigit = (digits, rest) := by
  have hrun : IsRun Char.isDigit digits rest := ⟨hall, hrest⟩
  rw [List.span_eq_takeWhile_dropWhile, hrun.takeWhile_eq, hrun.dropWhile_eq]

theorem span_isDigit_self (hall : ∀ d ∈ digits, d.isDigit = true) :
    digits.span Char.isDigit = (digits, []) := by
  simpa using span_isDigit hall [] (by simp)

theorem toLower_of_isDigit (h : c.isDigit = true) : c.toLower = c := by
  refine Char.toLower_eq_of_not_isUpper ?_
  rw [isDigit_iff] at h
  simp only [Char.isUpper, UInt32.le_iff_toNat_le, ge_iff_le, decide_eq_true_eq]
  show ¬ (65 ≤ c.toNat ∧ c.toNat ≤ 90)
  omega

namespace Numeral

/-- What starts with a digit has no sign. -/
theorem takeSign_of_isDigit (h : c.isDigit = true) (rest : List Char) :
    takeSign (c :: rest) = (false, c :: rest) := by
  unfold takeSign
  split
  · next heq =>
    obtain ⟨rfl, -⟩ := List.cons.inj heq
    cases h
  · next heq =>
    obtain ⟨rfl, -⟩ := List.cons.inj heq
    cases h
  · rfl

/-- What starts with a digit is no name. -/
theorem magnitude?_of_isDigit (h : c.isDigit = true) (rest : List Char) :
    magnitude? (c :: rest) = finite? (c :: rest) := by
  have hname {first : Char} {more : List Char} {name : String} (hname : name.toList = first :: more)
      (hfirst : first.isDigit = false) : String.ofList ((c :: rest).map Char.toLower) ≠ name := by
    rintro rfl
    rw [String.toList_ofList, List.map_cons, toLower_of_isDigit h] at hname
    obtain ⟨rfl, -⟩ := List.cons.inj hname
    rw [hfirst] at h
    cases h
  unfold magnitude?
  split
  · next heq => exact absurd heq (hname rfl rfl)
  · next heq => exact absurd heq (hname rfl rfl)
  · next heq => exact absurd heq (hname rfl rfl)
  · rfl

theorem finite?_whole (hne : digits ≠ []) (hall : ∀ d ∈ digits, d.isDigit = true) :
    finite? digits = some (.finite (digitsValue digits) 0) := by
  simp only [finite?, span_isDigit_self hall, takeFraction, exponent?]
  simp [hne]

theorem finite?_point (hall : ∀ d ∈ digits, d.isDigit = true) (hne : places ≠ [])
    (hplaces : ∀ d ∈ places, d.isDigit = true) :
    finite? (digits ++ '.' :: places) =
      some (.finite (digitsValue (digits ++ places)) (-places.length)) := by
  have hspan := span_isDigit hall ('.' :: places) (by simp)
  simp only [finite?, hspan, takeFraction, span_isDigit_self hplaces, exponent?]
  simp [hne]

/-- A decimal is a numeral without a sign and with finitely many digits. -/
theorem ofText?_of_isDecimal {text : String} (h : IsDecimal text.toList) :
    ∃ mantissa exponent, ofText? text = some ⟨false, .finite mantissa exponent⟩ := by
  obtain ⟨c, rest, htext, hc⟩ := h.exists_cons
  have hread : ofText? text =
      (finite? text.toList).map fun magnitude => ⟨false, magnitude⟩ := by
    simp only [ofText?, htext, takeSign_of_isDigit hc, magnitude?_of_isDigit hc]
  rw [hread]
  generalize text.toList = chars at h
  cases h with
  | whole hne hall => exact ⟨_, _, by rw [finite?_whole hne hall]; rfl⟩
  | point hne hall hsome hplaces => exact ⟨_, _, by rw [finite?_point hall hsome hplaces]; rfl⟩

end Numeral

namespace Binary64

/-- Whether the sign of a number is a minus. -/
def isNegative (x : Binary64) : Bool :=
  signBit ≤ x.bits.toNat

/-- No digits stand for more than infinity. -/
theorem decimalBits_le (mantissa : Nat) (exponent : Int) :
    decimalBits mantissa exponent ≤ infinityBits := by
  unfold decimalBits
  split
  · exact Nat.zero_le _
  · split
    · exact Nat.zero_le _
    · split
      · exact Nat.le_refl _
      · exact Nat.min_le_left _ _

/-- A numeral without a sign that is read as digits stands for a number that has none. -/
theorem ofNumeral_finite (mantissa : Nat) (exponent : Int) :
    (ofNumeral ⟨false, .finite mantissa exponent⟩).isNaN = false ∧
      (ofNumeral ⟨false, .finite mantissa exponent⟩).isNegative = false := by
  have hle := decimalBits_le mantissa exponent
  have hbits : (ofNumeral ⟨false, .finite mantissa exponent⟩).bits.toNat =
      decimalBits mantissa exponent := by
    simp only [ofNumeral, magnitudeBits, Bool.false_eq_true, if_false, Nat.zero_add]
    rw [UInt64.toNat_ofNat']
    unfold infinityBits at hle
    exact Nat.mod_eq_of_lt (by omega)
  simp only [isNaN, isNegative, hbits, decide_eq_false_iff_not]
  unfold infinityBits signBit at *
  omega

end Binary64

/-- What the text of a number is: a decimal, which is read as a numeral, so its value is never the
one for what is no numeral, and that value is neither no number nor negative. -/
structure PlainNumber (text : String) : Prop where
  decimal : IsDecimal text.toList
  numeral : (Numeral.ofText? text).isSome = true
  number : (Binary64.ofText text).isNaN = false
  notNegative : (Binary64.ofText text).isNegative = false

theorem PlainNumber.of_isDecimal {text : String} (h : IsDecimal text.toList) :
    PlainNumber text := by
  obtain ⟨mantissa, exponent, hread⟩ := Numeral.ofText?_of_isDecimal h
  have hvalue : Binary64.ofText text = .ofNumeral ⟨false, .finite mantissa exponent⟩ := by
    rw [Binary64.ofText, hread]
  obtain ⟨hnumber, hsign⟩ := Binary64.ofNumeral_finite mantissa exponent
  exact ⟨h, by rw [hread]; rfl, by rw [hvalue, hnumber], by rw [hvalue, hsign]⟩

end Reading

/-! ## Tokens -/

/-- A form that is a number has a decimal for its text. -/
theorem Form.WellFormed.isDecimal {form : Form} (h : form.WellFormed)
    (hkind : form.kind = .number) : IsDecimal form.text := by
  cases form with
  | punctuation c kind =>
      obtain rfl : kind = .number := hkind
      have htable : ∀ entry ∈ Spelling.punctuation, entry.2 ≠ .number := by decide
      exact absurd rfl (htable _ h)
  | operator run kind =>
      obtain rfl : kind = .number := hkind
      have htable : ∀ entry ∈ operators, entry.2 ≠ .number := by decide
      exact absurd rfl (htable _ h.2.2)
  | whole digits => exact .whole h.1 h.2
  | decimal digits places => exact .point h.1.1 h.1.2 h.2.1 h.2.2
  | fraction digits =>
      have hzero : ∀ d ∈ ['0'], d.isDigit = true := List.forall_mem_singleton.2 rfl
      exact .point (List.cons_ne_nil _ _) hzero h.1 h.2
  | word | string | field => cases hkind

theorem Place.Next.isDecimal {here : Place} {token : Token} (h : here.Next token)
    (hkind : token.kind = .number) : IsDecimal token.text.toList := by
  obtain ⟨lexeme, body, rest, -, hstands, rfl, -⟩ := h.stands
  obtain ⟨form, hform, -, -, rfl⟩ := Form.exists_of_stands hstands
  show IsDecimal (String.ofList form.text).toList
  rw [String.toList_ofList]
  exact hform.isDecimal hkind

theorem Reads.isDecimal {here there : Place} {found : List Token} (h : Reads here found there) :
    ∀ token ∈ found, token.kind = .number → IsDecimal token.text.toList := by
  induction h with
  | nil => exact List.forall_mem_nil _
  | cons hnext _ ih => exact List.forall_mem_cons.2 ⟨hnext.isDecimal, ih⟩

/-! ## Trees -/

theorem Slot.words_eq (slot : Slot) : slot.words = slot.body.words := by
  cases slot
  rfl

theorem Parameters.words_eq (parameters : Parameters) :
    parameters.words = Parameter.words parameters.items := by
  cases parameters
  rfl

theorem PatternField.words_eq_flatMap (fields : List PatternField) :
    PatternField.words fields = fields.flatMap fun field => PatternField.words [field] := by
  induction fields with
  | nil => rfl
  | cons field fields ih =>
      obtain ⟨source, destination, _⟩ := field
      simp [PatternField.words, ih]

theorem ObjectField.words_eq_flatMap (fields : List ObjectField) :
    ObjectField.words fields = fields.flatMap fun field => ObjectField.words [field] := by
  induction fields with
  | nil => rfl
  | cons field fields ih => rw [ObjectField.words_cons, ih, List.flatMap_cons]

theorem Parameter.words_eq_flatMap (items : List Parameter) :
    Parameter.words items = items.flatMap fun item => Parameter.words [item] := by
  induction items with
  | nil => rfl
  | cons item items ih =>
      obtain ⟨binding, fallback, _⟩ := item
      cases fallback <;> simp [Parameter.words, ih]

/-- A name that is bound to itself is its only word. -/
theorem Binding.words_of_isName {binding : Binding} {name : Name} (h : binding.isName name = true) :
    binding.words = [.name name] := by
  cases binding with
  | name found =>
      obtain rfl : found = name := by simpa [isName] using h
      rfl
  | pattern => cases h

/-- A value that is its own key has the word of the key. -/
theorem ObjectKey.words_of_isShared {key : ObjectKey} {value : Expr}
    (h : key.isShared value = true) : value.words = key.words := by
  cases key with
  | name name =>
      cases value with
      | name found =>
          obtain rfl : found = name := by simpa [isShared, Expr.isName] using h
          rfl
      | _ => cases h
  | string | number | computed => cases h

namespace Node

/-- The text of the number that a node is, if it is one. -/
def number? : Node → Option String
  | .expr (.number text _) => some text
  | .key (.number text _) => some text
  | _ => none

/-- The words of a node. -/
def words : Node → List Word
  | .statement it => it.words
  | .slot it => it.words
  | .expr it => it.words
  | .field it => ObjectField.words [it]
  | .key it => it.words
  | .binding it => it.words
  | .patternField it => PatternField.words [it]
  | .parameters it => it.words
  | .parameter it => Parameter.words [it]
  | .block statements _ => Statement.wordsAll statements
  | .name it => [.name it]

variable {child : Node}

/-- What a listed node has for words, the list has. -/
theorem words_subset_of_mem_map {α : Type} {toNode : α → Node} {toWords : α → List Word}
    {items : List α} (hwords : ∀ it, (toNode it).words = toWords it)
    (h : child ∈ items.map toNode) : child.words ⊆ items.flatMap toWords := by
  obtain ⟨it, hmem, rfl⟩ := List.mem_map.1 h
  rw [hwords]
  exact fun _ hword => List.mem_flatMap.2 ⟨it, hmem, hword⟩

theorem words_subset_statement {it : Statement} (h : child ∈ (statement it).children) :
    child.words ⊆ it.words := by
  cases it with
  | variableDeclaration modifier bound initializer span =>
      cases initializer <;> simp only [children] at h <;> grind [words, Statement.words]
  | functionDeclaration bound formals body span =>
      simp only [children, List.mem_cons, List.mem_append] at h
      rw [Statement.words, Statement.wordsAll_eq_flatMap, List.map_eq_flatMap]
      rcases h with rfl | hformal | hbody
      · simp [words]
      · have hwords : child.words ⊆ formals.flatMap fun it => [.name it] :=
          words_subset_of_mem_map (fun _ => rfl) hformal
        grind
      · have hwords : child.words ⊆ body.flatMap Statement.words :=
          words_subset_of_mem_map (fun _ => rfl) hbody
        grind
  | expression slot =>
      obtain rfl := List.mem_singleton.1 h
      simp [words, Statement.words]

theorem words_subset_expr {it : Expr} (h : child ∈ (expr it).children) :
    child.words ⊆ it.words := by
  cases it with
  | name name =>
      obtain rfl := List.mem_singleton.1 h
      simp [words, Expr.words]
  | string | number => exact absurd h List.not_mem_nil
  | field host name span =>
      obtain rfl := List.mem_singleton.1 h
      simp [words, Expr.words]
  | call host arguments span =>
      rw [Expr.words, Slot.wordsAll_eq_flatMap]
      rcases List.mem_cons.1 h with rfl | hargument
      · exact List.subset_append_left _ _
      · exact List.subset_append_of_subset_right _
          (words_subset_of_mem_map (fun _ => rfl) hargument)
  | object fields span =>
      rw [Expr.words, ObjectField.words_eq_flatMap]
      exact words_subset_of_mem_map (fun _ => rfl) h
  | index | sequence | assign => grind [words, Expr.words, children]
  | arrow formals body span =>
      cases body <;> grind [words, Expr.words, children, ArrowBody.node, ArrowBody.words]

/-- The words of the nodes right below a node are words of the node. A name that is both parts of an
entry is listed once only, but it is the same word. -/
theorem words_subset {node : Node} (h : child ∈ node.children) : child.words ⊆ node.words := by
  cases node with
  | statement it => exact words_subset_statement h
  | slot it =>
      obtain rfl := List.mem_singleton.1 h
      show it.body.words ⊆ it.words
      rw [it.words_eq]
      exact List.Subset.refl _
  | expr it => exact words_subset_expr h
  | field it =>
      obtain ⟨key, ⟨value, inner⟩, span⟩ := it
      cases hshared : key.isShared value
      · grind [words, children, ObjectField.words, Slot.words]
      · have hvalue := ObjectKey.words_of_isShared hshared
        grind [words, children, ObjectField.words, Slot.words]
  | key it => cases it <;> grind [words, children, ObjectKey.words]
  | binding it =>
      cases it with
      | name => grind [words, children, Binding.words]
      | pattern fields span =>
          show child.words ⊆ (Binding.pattern fields span).words
          rw [Binding.words, PatternField.words_eq_flatMap]
          exact words_subset_of_mem_map (fun _ => rfl) h
  | patternField it =>
      obtain ⟨source, destination, span⟩ := it
      cases hname : destination.isName source
      · grind [words, children, PatternField.words]
      · have hwords := Binding.words_of_isName hname
        grind [words, children, PatternField.words]
  | parameters it =>
      show child.words ⊆ it.words
      rw [it.words_eq, Parameter.words_eq_flatMap]
      exact words_subset_of_mem_map (fun _ => rfl) h
  | parameter it =>
      obtain ⟨binding, fallback, span⟩ := it
      cases fallback <;> grind [words, children, Parameter.words]
  | block statements span =>
      show child.words ⊆ Statement.wordsAll statements
      rw [Statement.wordsAll_eq_flatMap]
      exact words_subset_of_mem_map (fun _ => rfl) h
  | name => exact absurd h List.not_mem_nil

/-- A number is a word of itself. -/
theorem exists_mem_words_of_number? {node : Node} {text : String} (h : text ∈ node.number?) :
    ∃ span, .number text span ∈ node.words := by
  unfold number? at h
  split at h
  · cases h
    exact ⟨_, List.mem_singleton_self _⟩
  · cases h
    exact ⟨_, List.mem_singleton_self _⟩
  · cases h

end Node

/-- The words of the nodes of a program are words of the program. -/
theorem Program.HasNode.words_subset {program : Program} {node : Node} (h : program.HasNode node) :
    node.words ⊆ program.words := by
  induction h with
  | top hmem =>
      rw [Program.words, Statement.wordsAll_eq_flatMap]
      exact fun _ hword => List.mem_flatMap.2 ⟨_, hmem, hword⟩
  | child _ hchild ih => exact List.Subset.trans (Node.words_subset hchild) ih

/-- Each of the words that some tokens spell is one of the tokens. -/
theorem Spell.exists_of_mem {words : List Word} {found : List Token} {word : Word}
    (h : Spell words found) (hword : word ∈ words) : ∃ token ∈ found, word.Is token := by
  have hfiltered : ∃ token ∈ found.filter (·.kind.isWordy), word.Is token := by
    unfold Spell at h
    generalize found.filter (·.kind.isWordy) = wordy at h ⊢
    induction h with
    | nil => cases hword
    | cons his _ ih =>
        rcases List.mem_cons.1 hword with rfl | hrest
        · exact ⟨_, List.mem_cons_self, his⟩
        · obtain ⟨token, hmem, his⟩ := ih hrest
          exact ⟨token, List.mem_cons_of_mem _ hmem, his⟩
  obtain ⟨token, hmem, his⟩ := hfiltered
  exact ⟨token, (List.mem_filter.1 hmem).1, his⟩

/-- The words of what is derived are spelled by its tokens. -/
theorem Derives.spell {height : Nat} {found : List Token} {statements : List Statement}
    (h : Derives height found statements) (hordered : Ordered found) :
    Spell (Statement.wordsAll statements) found := by
  rw [Statement.wordsAll_eq_flatMap]
  exact Phrases.Series.spell Statement.words
    (fun _ _ => (Phrases.spells_ofHeight height).statement) h hordered

/-- Every number in a program is the text of a token that is a number. -/
theorem Program.HasNode.exists_number_token {program : Program} {found : List Token} {node : Node}
    {text : String} (hnode : program.HasNode node) (h : text ∈ node.number?)
    (hspell : Spell program.words found) :
    ∃ token ∈ found, token.kind = .number ∧ token.text = text := by
  obtain ⟨span, hword⟩ := Node.exists_mem_words_of_number? h
  obtain ⟨token, hmem, his⟩ := hspell.exists_of_mem (hnode.words_subset hword)
  cases his with
  | number hkind => exact ⟨_, hmem, hkind, rfl⟩

/-- Every number among the tokens of a text, and every number that is a node or a key anywhere in
the tree of a program, is a plain decimal: its value is read from it, and is neither no number nor
negative. -/
theorem Program.numbers_plain (source : String) :
    (∀ found, tokens source = .ok found →
      ∀ token ∈ found, token.kind = .number → PlainNumber token.text) ∧
    ∀ program, Program.parse source = .ok program →
      ∀ node, program.HasNode node → ∀ text ∈ node.number?, PlainNumber text := by
  have htokens {found : List Token} (h : tokens source = .ok found) :
      ∀ token ∈ found, token.kind = .number → PlainNumber token.text := by
    obtain ⟨there, hreads, -⟩ := Reads.start_tokens_eq_ok_iff.1 (tokens_eq_ok_iff.1 h)
    exact fun token hmem hkind => .of_isDecimal (hreads.isDecimal token hmem hkind)
  refine ⟨fun found => htokens, fun program hprogram node hnode text htext => ?_⟩
  obtain ⟨found, hfound, hderives, -⟩ := Program.derives_of_parse hprogram
  obtain ⟨there, hreads, -⟩ := Reads.start_tokens_eq_ok_iff.1 (tokens_eq_ok_iff.1 hfound)
  have hspell : Spell program.words found := hderives.spell hreads.ordered.1
  obtain ⟨token, hmem, hkind, rfl⟩ := hnode.exists_number_token htext hspell
  exact htokens hfound token hmem hkind

set_option maxRecDepth 4000 in
/-- The default value of a parameter, written without a digit before its point, and the key of an
object literal are plain decimals. -/
theorem Program.numbers_plain_default :
    ∃ program, Program.parse "(a = .5) => f(\x7b1: a\x7d);" = .ok program ∧
      ∃ fallback, program.HasNode fallback ∧ fallback.number? = some "0.5" ∧ PlainNumber "0.5" ∧
        ∃ key, program.HasNode key ∧ key.number? = some "1" ∧ PlainNumber "1" := by
  let fallback : Slot := ⟨.number "0.5" ⟨5, 2⟩, ⟨5, 2⟩⟩
  let formals : Parameters := ⟨[⟨.name ⟨"a", ⟨1, 1⟩⟩, some fallback, ⟨1, 6⟩⟩], ⟨0, 8⟩⟩
  let entry : ObjectField :=
    ⟨.number "1" ⟨15, 1⟩, .bare (.name ⟨"a", ⟨18, 1⟩⟩), ⟨15, 4⟩⟩
  let call : Expr := .call (.name ⟨"f", ⟨12, 1⟩⟩) [.bare (.object [entry] ⟨14, 6⟩)] ⟨12, 9⟩
  let arrow : Expr := .arrow formals (.expression (.bare call)) ⟨0, 21⟩
  let program : Program := ⟨[.expression (.bare arrow)], ⟨0, 22⟩⟩
  have hprogram : Program.parse "(a = .5) => f(\x7b1: a\x7d);" = .ok program := by cbv
  have harrow : program.HasNode (.expr arrow) :=
    ((Program.HasNode.top List.mem_cons_self).head rfl).head rfl
  have hfallback : program.HasNode (.expr fallback.body) :=
    (((harrow.head rfl).head rfl).child (.tail _ List.mem_cons_self)).head rfl
  have hcall : program.HasNode (.expr call) :=
    (harrow.child (.tail _ List.mem_cons_self)).head rfl
  have hkey : program.HasNode (.key entry.key) :=
    ((((hcall.child (.tail _ List.mem_cons_self)).head rfl).head rfl).head rfl)
  have hplain := (Program.numbers_plain "(a = .5) => f(\x7b1: a\x7d);").2 program hprogram
  exact ⟨program, hprogram, _, hfallback, rfl, hplain _ hfallback _ rfl,
    _, hkey, rfl, hplain _ hkey _ rfl⟩

end Scriptlet
