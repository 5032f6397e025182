import Scriptlet.Json
import Scriptlet.Proofs.Lexemes
import Mathlib.Data.Nat.Digits.Defs

/-!
# JSON texts

`Json.chars` is the text of a value as characters, part by part, for any layout that only adds to
the text before it. What the indented layout adds to the compact one is what `withoutLayout` takes
away again: outside strings, the line feeds, the spaces that a line starts with, and the space
behind a colon. `Region` says where in a text a character stands, and `Region.Leaves` composes over
the parts of a text.
-/

namespace Scriptlet

namespace Json

/-! ## Texts as characters -/

/-- The characters of a string behind its first quote. -/
def quotedChars : List Char → List Char
  | [] => ['"']
  | c :: rest => (escape c).toList ++ quotedChars rest

/-- The characters of a string with its quotes. -/
def quoted (value : String) : List Char :=
  '"' :: quotedChars value.toList

/-- What starts a line at a depth. -/
def Layout.gap (layout : Layout) (depth : Nat) : List Char :=
  (layout.line depth "").toList

/-- The start of a line is behind the text before it. -/
def Layout.Adds (layout : Layout) : Prop :=
  ∀ depth before, (layout.line depth before).toList = before.toList ++ layout.gap depth

mutual
/-- The characters of a value at a depth. -/
def chars (layout : Layout) (depth : Nat) : Json → List Char
  | null => ['n', 'u', 'l', 'l']
  | number value => Nat.toDigits 10 value
  | string value => quoted value
  | array [] => ['[', ']']
  | array (item :: rest) =>
    '[' :: (layout.gap (depth + 1) ++ (chars layout (depth + 1) item ++
      (itemsChars layout (depth + 1) rest ++ (layout.gap depth ++ [']']))))
  | object [] => ['\x7b', '\x7d']
  | object ((key, value) :: rest) =>
    '\x7b' :: (layout.gap (depth + 1) ++ (quoted key ++ (layout.colon.toList ++
      (chars layout (depth + 1) value ++
        (membersChars layout (depth + 1) rest ++ (layout.gap depth ++ ['\x7d']))))))

/-- The characters of the further items of an array. -/
def itemsChars (layout : Layout) (depth : Nat) : List Json → List Char
  | [] => []
  | item :: rest =>
    ',' :: (layout.gap depth ++ (chars layout depth item ++ itemsChars layout depth rest))

/-- The characters of the further members of an object. -/
def membersChars (layout : Layout) (depth : Nat) : List (String × Json) → List Char
  | [] => []
  | (key, value) :: rest =>
    ',' :: (layout.gap depth ++ (quoted key ++ (layout.colon.toList ++
      (chars layout depth value ++ membersChars layout depth rest))))
end

theorem toList_writeString (before value : String) :
    (writeString before value).toList = before.toList ++ quoted value := by
  have hfold (body : List Char) (text : String) :
      (body.foldl (fun text c => text ++ escape c) text).toList ++ ['"'] =
        text.toList ++ quotedChars body := by
    induction body generalizing text with
    | nil => rfl
    | cons c body ih => simp [ih, quotedChars]
  rw [writeString, String.toList_push, hfold]
  simp [quoted]

theorem adds_compact : Layout.compact.Adds := by
  intro depth before
  simp [Layout.compact, Layout.gap]

theorem toList_pushn (text : String) (c : Char) (count : Nat) :
    (text.pushn c count).toList = text.toList ++ List.replicate count c := by
  induction count with
  | zero => simp [String.pushn, Nat.repeat]
  | succ count ih =>
      rw [String.pushn, Nat.repeat, String.toList_push, ← String.pushn, ih, List.replicate_succ',
        List.append_assoc]

theorem adds_indented : Layout.indented.Adds := by
  intro depth before
  simp [Layout.indented, Layout.gap, toList_pushn]

section

variable {layout : Layout} (h : layout.Adds)

include h

mutual
/-- A value is written behind the text before it, as its characters. -/
theorem toList_write : ∀ (depth : Nat) (before : String) (value : Json),
    (write layout depth before value).toList = before.toList ++ value.chars layout depth
  | _, _, null => by simp [write, chars]
  | _, _, number _ => by simp [write, chars]
  | _, _, string _ => by simp [write, chars, toList_writeString]
  | _, _, array [] => by simp [write, chars]
  | depth, before, array (item :: rest) => by
      simp [write, chars, h _ _, toList_writeItems (depth + 1) _ rest,
        toList_write (depth + 1) _ item]
  | _, _, object [] => by simp [write, chars]
  | depth, before, object ((key, value) :: rest) => by
      simp [write, chars, h _ _, toList_writeMembers (depth + 1) _ rest, toList_writeString,
        toList_write (depth + 1) _ value]

theorem toList_writeItems : ∀ (depth : Nat) (before : String) (items : List Json),
    (writeItems layout depth before items).toList = before.toList ++ itemsChars layout depth items
  | _, _, [] => by simp [writeItems, itemsChars]
  | depth, before, item :: rest => by
      simp [writeItems, itemsChars, h _ _, toList_writeItems depth _ rest,
        toList_write depth _ item]

theorem toList_writeMembers : ∀ (depth : Nat) (before : String) (members : List (String × Json)),
    (writeMembers layout depth before members).toList =
      before.toList ++ membersChars layout depth members
  | _, _, [] => by simp [writeMembers, membersChars]
  | depth, before, (key, value) :: rest => by
      simp [writeMembers, membersChars, h _ _, toList_writeMembers depth _ rest,
        toList_writeString, toList_write depth _ value]
end

end

/-! ## Without layout -/

/-- Where a character of a text stands. -/
inductive Region where
  | outside
  /-- At the start of a line, or behind the spaces that it starts with. -/
  | line
  /-- Right behind a colon. -/
  | colon
  | string
  /-- Right behind a backslash of a string. -/
  | escaped
deriving DecidableEq

namespace Region

/-- Whether the region lies in a string. -/
def inString : Region → Bool
  | string | escaped => true
  | outside | line | colon => false

/-- The region behind a character. -/
def next (region : Region) (c : Char) : Region :=
  match region with
  | string => if c = '"' then outside else if c = '\\' then escaped else string
  | escaped => string
  | outside | line | colon =>
    if c = '\n' then line
    else if c = ' ' ∧ region = line then line
    else if c = '"' then string
    else if c = ':' then colon
    else outside

/-- Whether a character is layout where it stands: a line feed, a space that a line starts with, or
the space behind a colon. -/
def isLayout : Region → Char → Bool
  | string, _ | escaped, _ => false
  | outside, c => c = '\n'
  | line, c | colon, c => c = '\n' || c = ' '

/-- The characters of a text from a region on that are no layout. -/
def withoutLayout : Region → List Char → List Char
  | _, [] => []
  | region, c :: rest =>
    if region.isLayout c then withoutLayout (region.next c) rest
    else c :: withoutLayout (region.next c) rest

/-- Of the text, `kept` is left without its layout, and it leads from the one region to the other. -/
def Leaves (region : Region) (text kept : List Char) (behind : Region) : Prop :=
  ∀ rest, region.withoutLayout (text ++ rest) = kept ++ behind.withoutLayout rest

variable {region middle behind : Region} {text more kept others : List Char} {c : Char}

theorem Leaves.nil (region : Region) : region.Leaves [] [] region :=
  fun _ => rfl

theorem Leaves.append (h : region.Leaves text kept middle)
    (hmore : middle.Leaves more others behind) :
    region.Leaves (text ++ more) (kept ++ others) behind := by
  intro rest
  rw [List.append_assoc, h, hmore, List.append_assoc]

/-- A character that is no layout is kept. -/
theorem Leaves.keep (h : region.isLayout c = false) : region.Leaves [c] [c] (region.next c) := by
  intro rest
  simp [withoutLayout, h]

/-- A character that is layout is not kept. -/
theorem Leaves.drop (h : region.isLayout c = true) : region.Leaves [c] [] (region.next c) := by
  intro rest
  simp [withoutLayout, h]

/-- A character that means nothing to the layout. -/
def Plain (c : Char) : Prop :=
  c ≠ '\n' ∧ c ≠ ' ' ∧ c ≠ '"' ∧ c ≠ ':'

instance : Decidable (Plain c) :=
  inferInstanceAs (Decidable (_ ∧ _))

/-- Outside strings, a plain character is kept. -/
theorem Leaves.plain (hregion : region.inString = false) (h : Plain c) :
    region.Leaves [c] [c] .outside := by
  obtain ⟨hline, hspace, hquote, hcolon⟩ := h
  have hkeep : region.isLayout c = false := by
    cases region <;> simp_all [isLayout, inString]
  have hnext : region.next c = .outside := by
    cases region <;> simp_all [next, inString]
  exact hnext ▸ .keep hkeep

/-- Outside strings, plain characters are kept. -/
theorem Leaves.plains (hregion : region.inString = false) (h : ∀ c ∈ text, Plain c)
    (hne : text ≠ []) : region.Leaves text text .outside := by
  induction text generalizing region with
  | nil => exact absurd rfl hne
  | cons c text ih =>
      obtain ⟨hc, htext⟩ := List.forall_mem_cons.1 h
      by_cases hlast : text = []
      · subst hlast
        exact .plain hregion hc
      · exact (Leaves.plain hregion hc).append (ih rfl htext hlast)

end Region

open Region

/-! ### Strings -/

/-- The characters that are escaped by a letter, with their letters. -/
def escapeLetters : List (Char × Char) :=
  [('"', '"'), ('\\', '\\'), ('\n', 'n'), ('\r', 'r'), ('\t', 't'), ('\x08', 'b'), ('\x0c', 'f')]

/-- A character is escaped by a letter, by its code in hexadecimal digits, or not at all. -/
theorem escape_cases (c : Char) :
    (∃ letter, (c, letter) ∈ escapeLetters ∧ (escape c).toList = ['\\', letter]) ∨
    (c.toNat < 32 ∧ (escape c).toList =
      ['\\', 'u', '0', '0', hexDigit (c.toNat / 16), hexDigit (c.toNat % 16)]) ∨
    (c ≠ '"' ∧ c ≠ '\\' ∧ (escape c).toList = [c]) := by
  unfold escape
  split
  · exact .inl ⟨'"', by decide, rfl⟩
  · exact .inl ⟨'\\', by decide, rfl⟩
  · exact .inl ⟨'n', by decide, rfl⟩
  · exact .inl ⟨'r', by decide, rfl⟩
  · exact .inl ⟨'t', by decide, rfl⟩
  · exact .inl ⟨'b', by decide, rfl⟩
  · exact .inl ⟨'f', by decide, rfl⟩
  · next hquote hbackslash _ _ _ _ _ =>
    split
    · next hcontrol => exact .inr (.inl ⟨hcontrol, by simp⟩)
    · exact .inr (.inr ⟨hquote, hbackslash, by simp⟩)

theorem hexDigit_ne {value : Nat} (h : value < 16) :
    hexDigit value ≠ '"' ∧ hexDigit value ≠ '\\' := by
  have hall : ∀ value < 16, hexDigit value ≠ '"' ∧ hexDigit value ≠ '\\' := by decide
  exact hall value h

/-- In a string, a character that is neither a quote nor a backslash is kept and ends nothing. -/
theorem leaves_inner {c : Char} (hquote : c ≠ '"') (hbackslash : c ≠ '\\') :
    Region.string.Leaves [c] [c] .string := by
  have hnext : Region.string.next c = .string := by simp [next, hquote, hbackslash]
  have hkeep : Region.string.Leaves [c] [c] (Region.string.next c) := .keep rfl
  rwa [hnext] at hkeep

/-- A character of a string is kept as it is escaped, and does not end the string. -/
theorem leaves_escape (c : Char) :
    Region.string.Leaves (escape c).toList (escape c).toList .string := by
  have hbackslash : Region.string.Leaves ['\\'] ['\\'] .escaped := .keep rfl
  have hescaped (letter : Char) : Region.escaped.Leaves [letter] [letter] .string := .keep rfl
  rcases escape_cases c with ⟨letter, -, hescape⟩ | ⟨hcontrol, hescape⟩ | ⟨hquote, hplain, hescape⟩
  · rw [hescape]
    exact hbackslash.append (hescaped letter)
  · rw [hescape]
    have hhigh := hexDigit_ne (show c.toNat / 16 < 16 by omega)
    have hlow := hexDigit_ne (show c.toNat % 16 < 16 by omega)
    have hzero : Region.string.Leaves ['0'] ['0'] .string := .keep rfl
    exact hbackslash.append ((hescaped 'u').append (hzero.append (hzero.append
      ((leaves_inner hhigh.1 hhigh.2).append (leaves_inner hlow.1 hlow.2)))))
  · rw [hescape]
    exact leaves_inner hquote hplain

/-- A string is kept. -/
theorem leaves_quoted {region : Region} (hregion : region.inString = false) (value : String) :
    region.Leaves (quoted value) (quoted value) .outside := by
  have hquote : region.Leaves ['"'] ['"'] .string := by
    cases region with
    | string | escaped => cases hregion
    | outside | line | colon => exact .keep rfl
  have hbody (body : List Char) :
      Region.string.Leaves (quotedChars body) (quotedChars body) .outside := by
    induction body with
    | nil => exact .keep rfl
    | cons c body ih => exact (leaves_escape c).append ih
  exact hquote.append (hbody value.toList)

/-! ### Values -/

theorem gap_compact (depth : Nat) : Layout.compact.gap depth = [] := rfl

theorem gap_indented (depth : Nat) :
    Layout.indented.gap depth = '\n' :: List.replicate (2 * depth) ' ' := by
  simp [Layout.gap, Layout.indented, toList_pushn]

/-- The start of a line is layout. -/
theorem leaves_gap {region : Region} (hregion : region.inString = false) (depth : Nat) :
    region.Leaves (Layout.indented.gap depth) (Layout.compact.gap depth) .line := by
  have hfeed : region.Leaves ['\n'] [] .line := by
    cases region with
    | string | escaped => cases hregion
    | outside | line | colon => exact .drop rfl
  have hspaces (count : Nat) : Region.line.Leaves (List.replicate count ' ') [] .line := by
    induction count with
    | zero => exact .nil _
    | succ count ih =>
        have hspace : Region.line.Leaves [' '] [] .line := .drop rfl
        exact hspace.append ih
  rw [gap_indented, gap_compact]
  exact hfeed.append (hspaces (2 * depth))

/-- The space behind a colon is layout. -/
theorem leaves_colon :
    Region.outside.Leaves Layout.indented.colon.toList Layout.compact.colon.toList .outside := by
  have hcolon : Region.outside.Leaves [':'] [':'] .colon := .keep rfl
  have hspace : Region.colon.Leaves [' '] [] .outside := .drop rfl
  exact hcolon.append hspace

theorem plain_of_isDigit {c : Char} (h : c.isDigit = true) : Plain c := by
  refine ⟨?_, ?_, ?_, ?_⟩ <;> rintro rfl <;> cases h

mutual
/-- Without its layout the text of a value on indented lines is its compact text. -/
theorem leaves_chars : ∀ (depth : Nat) (value : Json) {region : Region},
    region.inString = false → region.Leaves (value.chars .indented depth)
      (value.chars .compact depth) .outside
  | _, null, _, h => by
      rw [chars, chars]
      exact .plains h (by simp [Plain]) (List.cons_ne_nil _ _)
  | _, number value, _, h =>
      .plains h
        (fun _ hc => plain_of_isDigit (Nat.isDigit_of_mem_toDigits (by decide) (by decide) hc))
        Nat.toDigits_ne_nil
  | _, string value, _, h => leaves_quoted h value
  | _, array [], _, h => by
      rw [chars, chars]
      exact .plains h (by simp [Plain]) (List.cons_ne_nil _ _)
  | depth, array (item :: rest), _, h => by
      rw [chars, chars]
      exact (Leaves.plain h (by decide)).append ((leaves_gap rfl _).append
        ((leaves_chars (depth + 1) item rfl).append ((leaves_itemsChars (depth + 1) rest).append
          ((leaves_gap rfl _).append (.plain rfl (by decide))))))
  | _, object [], _, h => by
      rw [chars, chars]
      exact .plains h (by simp [Plain]) (List.cons_ne_nil _ _)
  | depth, object ((key, value) :: rest), _, h => by
      rw [chars, chars]
      exact (Leaves.plain h (by decide)).append ((leaves_gap rfl _).append
        ((leaves_quoted rfl key).append (leaves_colon.append
          ((leaves_chars (depth + 1) value rfl).append
            ((leaves_membersChars (depth + 1) rest).append
              ((leaves_gap rfl _).append (.plain rfl (by decide))))))))

theorem leaves_itemsChars : ∀ (depth : Nat) (items : List Json),
    Region.outside.Leaves (itemsChars .indented depth items) (itemsChars .compact depth items)
      .outside
  | _, [] => .nil _
  | depth, item :: rest => by
      rw [itemsChars, itemsChars]
      exact (Leaves.plain rfl (by decide)).append ((leaves_gap rfl _).append
        ((leaves_chars depth item rfl).append (leaves_itemsChars depth rest)))

theorem leaves_membersChars : ∀ (depth : Nat) (members : List (String × Json)),
    Region.outside.Leaves (membersChars .indented depth members)
      (membersChars .compact depth members) .outside
  | _, [] => .nil _
  | depth, (key, value) :: rest => by
      rw [membersChars, membersChars]
      exact (Leaves.plain rfl (by decide)).append ((leaves_gap rfl _).append
        ((leaves_quoted rfl key).append (leaves_colon.append
          ((leaves_chars depth value rfl).append (leaves_membersChars depth rest)))))
end

/-- A text without line feeds, indentation and spaces behind colons outside its strings. -/
def withoutLayout (text : String) : String :=
  String.ofList (Region.outside.withoutLayout text.toList)

theorem toList_compact (value : Json) : value.compact.toList = value.chars .compact 0 := by
  rw [compact, toList_write adds_compact, String.toList_empty, List.nil_append]

theorem toList_indented (value : Json) : value.indented.toList = value.chars .indented 0 := by
  rw [indented, toList_write adds_indented, String.toList_empty, List.nil_append]

/-- The two layouts of a value differ in their layout only. -/
theorem withoutLayout_indented (value : Json) : withoutLayout value.indented = value.compact := by
  have houtside : Region.outside.inString = false := rfl
  have hleaves := leaves_chars 0 value houtside []
  rw [List.append_nil, ← toList_indented, ← toList_compact] at hleaves
  rw [withoutLayout, hleaves]
  simp [Region.withoutLayout]

end Json

end Scriptlet
