import Scriptlet.Proofs.JsonText

/-!
# JSON texts as a prefix code

A text starts with the compact text of one value at most, so long as the rest does not go on with
the digits of a number. The first character of a value says which form it has; then strings are
taken apart by characters, as `unescape` does, and arrays and objects by what stands between their
brackets. So two values with the same compact text are the same, and by `withoutLayout_indented`
two with the same text on indented lines.
-/

namespace Scriptlet

namespace Json

/-! ## Strings -/

/-- The number of a hexadecimal digit in lower case. -/
def hexValue (c : Char) : Nat :=
  if c.isDigit then c.toNat - '0'.toNat else c.toNat - 'a'.toNat + 10

theorem hexValue_hexDigit {value : Nat} (h : value < 16) : hexValue (hexDigit value) = value := by
  have hall : ∀ value < 16, hexValue (hexDigit value) = value := by decide
  exact hall value h

/-- The first character of a string, and the text behind it. The quote is the end of a string, not
one of its characters. -/
def unescape : List Char → Option (Char × List Char)
  | [] | '"' :: _ => none
  | '\\' :: 'u' :: _ :: _ :: high :: low :: rest =>
    some (Char.ofNat (16 * hexValue high + hexValue low), rest)
  | '\\' :: letter :: rest =>
    (escapeLetters.find? (·.2 = letter)).map fun entry => (entry.1, rest)
  | c :: rest => some (c, rest)

theorem unescape_letter {c letter : Char} (h : (c, letter) ∈ escapeLetters) (rest : List Char) :
    unescape ('\\' :: letter :: rest) = some (c, rest) := by
  simp only [escapeLetters, List.mem_cons, List.not_mem_nil, or_false, Prod.mk.injEq] at h
  rcases h with ⟨rfl, rfl⟩ | ⟨rfl, rfl⟩ | ⟨rfl, rfl⟩ | ⟨rfl, rfl⟩ | ⟨rfl, rfl⟩ | ⟨rfl, rfl⟩ |
    ⟨rfl, rfl⟩ <;> rfl

/-- A character can be told from its escaped form, whatever stands behind it. -/
theorem unescape_escape (c : Char) (rest : List Char) :
    unescape ((escape c).toList ++ rest) = some (c, rest) := by
  rcases escape_cases c with ⟨letter, hletter, hescape⟩ | ⟨hcontrol, hescape⟩ |
    ⟨hquote, hbackslash, hescape⟩
  · rw [hescape]
    exact unescape_letter hletter rest
  · have hhigh : hexValue (hexDigit (c.toNat / 16)) = c.toNat / 16 := hexValue_hexDigit (by omega)
    have hlow : hexValue (hexDigit (c.toNat % 16)) = c.toNat % 16 := hexValue_hexDigit (by omega)
    rw [hescape]
    simp only [List.cons_append, List.nil_append, unescape, hhigh, hlow, Nat.div_add_mod,
      Char.ofNat_toNat]
  · rw [hescape]
    simp [unescape, hbackslash]

theorem quotedChars_inj (a b : List Char) {rest others : List Char}
    (h : quotedChars a ++ rest = quotedChars b ++ others) : a = b ∧ rest = others := by
  induction a generalizing b with
  | nil =>
      cases b with
      | nil => exact ⟨rfl, List.cons_inj_right _ |>.1 h⟩
      | cons d b =>
          have hread := congrArg unescape h
          rw [quotedChars, quotedChars, List.append_assoc, unescape_escape] at hread
          cases hread
  | cons c a ih =>
      cases b with
      | nil =>
          have hread := congrArg unescape h
          rw [quotedChars, quotedChars, List.append_assoc, unescape_escape] at hread
          cases hread
      | cons d b =>
          have hread := congrArg unescape h
          rw [quotedChars, quotedChars, List.append_assoc, List.append_assoc, unescape_escape,
            unescape_escape, Option.some.injEq, Prod.mk.injEq] at hread
          obtain ⟨rfl, hbehind⟩ := hread
          obtain ⟨rfl, hrest⟩ := ih b hbehind
          exact ⟨rfl, hrest⟩

theorem quoted_inj {a b : String} {rest others : List Char}
    (h : quoted a ++ rest = quoted b ++ others) : a = b ∧ rest = others := by
  obtain ⟨hlist, hrest⟩ := quotedChars_inj a.toList b.toList (List.cons_inj_right _ |>.1 h)
  exact ⟨String.toList_inj.1 hlist, hrest⟩

/-! ## Numbers -/

/-- The text does not go on with a digit. -/
def NoDigit (text : List Char) : Prop :=
  ∀ c ∈ text.head?, c.isDigit = false

theorem noDigit_nil : NoDigit [] := by
  simp [NoDigit]

theorem noDigit_cons {c : Char} (h : c.isDigit = false)
    (text : List Char) : NoDigit (c :: text) := by
  simpa [NoDigit] using h

theorem isRun_toDigits (value : Nat) {rest : List Char} (h : NoDigit rest) :
    IsRun Char.isDigit (Nat.toDigits 10 value) rest where
  all _ hc := Nat.isDigit_of_mem_toDigits (by decide) (by decide) hc
  stops := h

theorem toDigits_inj {a b : Nat} {rest others : List Char} (hrest : NoDigit rest)
    (hothers : NoDigit others)
    (h : Nat.toDigits 10 a ++ rest = Nat.toDigits 10 b ++ others) : a = b ∧ rest = others := by
  have hrun := congrArg (List.takeWhile Char.isDigit) h
  rw [(isRun_toDigits a hrest).takeWhile_eq, (isRun_toDigits b hothers).takeWhile_eq] at hrun
  refine ⟨?_, ?_⟩
  · calc
      a = Nat.ofDigitChars 10 (Nat.toDigits 10 a) 0 := Nat.ofDigitChars_ten_toDigits.symm
      _ = Nat.ofDigitChars 10 (Nat.toDigits 10 b) 0 := by rw [hrun]
      _ = b := Nat.ofDigitChars_ten_toDigits
  · rw [hrun] at h
    exact List.append_cancel_left h

/-! ## Forms -/

/-- The first character of a value, any digit standing as the digit zero. -/
def mark : Json → Char
  | null => 'n'
  | number _ => '0'
  | string _ => '"'
  | array _ => '['
  | object _ => '\x7b'

/-- The form of the value that starts with the character, as `mark` gives it. -/
def markOf (c : Char) : Char :=
  if c.isDigit then '0' else c

theorem exists_chars (layout : Layout) (depth : Nat) (value : Json) :
    ∃ c text, value.chars layout depth = c :: text ∧ markOf c = value.mark := by
  cases value with
  | null => exact ⟨_, _, rfl, rfl⟩
  | number value =>
      have hne : Nat.toDigits 10 value ≠ [] := Nat.toDigits_ne_nil
      obtain ⟨c, text, htext⟩ := List.exists_cons_of_ne_nil hne
      have hdigit : c.isDigit = true :=
        Nat.isDigit_of_mem_toDigits (by decide) (by decide) (htext ▸ List.mem_cons_self)
      exact ⟨c, text, htext, if_pos hdigit⟩
  | string value => exact ⟨_, _, rfl, rfl⟩
  | array items =>
      cases items with
      | nil => exact ⟨_, _, rfl, rfl⟩
      | cons item rest => exact ⟨_, _, rfl, rfl⟩
  | object members =>
      cases members with
      | nil => exact ⟨_, _, rfl, rfl⟩
      | cons member rest => exact ⟨_, _, rfl, rfl⟩

/-- Two texts that start alike start with values of one form. -/
theorem mark_eq {layout : Layout} {depth : Nat} {a b : Json} {rest others : List Char}
    (h : a.chars layout depth ++ rest = b.chars layout depth ++ others) : a.mark = b.mark := by
  obtain ⟨c, text, htext, hmark⟩ := exists_chars layout depth a
  obtain ⟨d, more, hmore, hother⟩ := exists_chars layout depth b
  rw [htext, hmore, List.cons_append, List.cons_append] at h
  rw [← hmark, ← hother, (List.cons.inj h).1]

/-- No value starts with the bracket that closes an array. -/
theorem chars_ne_close {layout : Layout} {depth : Nat} {value : Json} {rest others : List Char}
    (h : value.chars layout depth ++ rest = ']' :: others) : False := by
  obtain ⟨c, text, htext, hmark⟩ := exists_chars layout depth value
  rw [htext, List.cons_append] at h
  rw [(List.cons.inj h).1] at hmark
  have hform : value.mark ≠ ']' := by cases value <;> simp [mark]
  exact hform hmark.symm

/-! ## Values -/

theorem colon_compact : Layout.compact.colon.toList = [':'] := rfl

theorem noDigit_itemsChars (depth : Nat) (items : List Json) {rest : List Char}
    (hrest : NoDigit rest) : NoDigit (itemsChars .compact depth items ++ rest) := by
  cases items with
  | nil => exact hrest
  | cons item items => exact noDigit_cons (by decide) _

theorem noDigit_membersChars (depth : Nat) (members : List (String × Json)) {rest : List Char}
    (hrest : NoDigit rest) : NoDigit (membersChars .compact depth members ++ rest) := by
  cases members with
  | nil => exact hrest
  | cons member members => exact noDigit_cons (by decide) _

/-- Two arrays whose texts start alike agree on the items behind the first bracket, each behind a
comma: a text cannot go on both with an item and with the bracket that closes the array. -/
theorem itemsChars_of_array {depth : Nat} {items items' : List Json} {rest others : List Char}
    (h : (array items).chars .compact depth ++ rest =
      (array items').chars .compact depth ++ others) :
    itemsChars .compact (depth + 1) items ++ ']' :: rest =
      itemsChars .compact (depth + 1) items' ++ ']' :: others := by
  cases items with
  | nil =>
      cases items' with
      | nil => simpa [chars, itemsChars] using h
      | cons item' items' =>
          rw [chars, chars, gap_compact] at h
          simp only [List.cons_append, List.nil_append, List.append_assoc, List.cons.injEq,
            true_and] at h
          exact (chars_ne_close h.symm).elim
  | cons item items =>
      cases items' with
      | nil =>
          rw [chars, chars, gap_compact] at h
          simp only [List.cons_append, List.nil_append, List.append_assoc, List.cons.injEq,
            true_and] at h
          exact (chars_ne_close h).elim
      | cons item' items' => simpa [chars, itemsChars, gap_compact] using h

/-- Two objects whose texts start alike agree on the members behind the first brace, each behind a
comma: a member starts with a quote. -/
theorem membersChars_of_object {depth : Nat} {members members' : List (String × Json)}
    {rest others : List Char}
    (h : (object members).chars .compact depth ++ rest =
      (object members').chars .compact depth ++ others) :
    membersChars .compact (depth + 1) members ++ '\x7d' :: rest =
      membersChars .compact (depth + 1) members' ++ '\x7d' :: others := by
  cases members with
  | nil =>
      cases members' with
      | nil => simpa [chars, membersChars] using h
      | cons member' members' => simp [chars, gap_compact, quoted] at h
  | cons member members =>
      cases members' with
      | nil => simp [chars, gap_compact, quoted] at h
      | cons member' members' => simpa [chars, membersChars, gap_compact] using h

mutual
/-- A text starts with the compact text of one value at most. -/
theorem chars_inj : ∀ (depth : Nat) (a b : Json) {rest others : List Char},
    NoDigit rest → NoDigit others →
    a.chars .compact depth ++ rest = b.chars .compact depth ++ others → a = b ∧ rest = others
  | depth, null, b, rest, others, hrest, hothers, h => by
      have hmark := mark_eq h
      cases b with
      | null => exact ⟨rfl, List.append_cancel_left h⟩
      | number | string | array | object => exact absurd hmark (by simp [mark])
  | depth, number m, b, rest, others, hrest, hothers, h => by
      have hmark := mark_eq h
      cases b with
      | number n =>
          obtain ⟨rfl, hbehind⟩ := toDigits_inj hrest hothers h
          exact ⟨rfl, hbehind⟩
      | null | string | array | object => exact absurd hmark (by simp [mark])
  | depth, string v, b, rest, others, hrest, hothers, h => by
      have hmark := mark_eq h
      cases b with
      | string w =>
          obtain ⟨rfl, hbehind⟩ := quoted_inj h
          exact ⟨rfl, hbehind⟩
      | null | number | array | object => exact absurd hmark (by simp [mark])
  | depth, array items, b, rest, others, hrest, hothers, h => by
      have hmark := mark_eq h
      cases b with
      | array items' =>
          obtain ⟨rfl, hbehind⟩ := itemsChars_inj _ items items' (itemsChars_of_array h)
          exact ⟨rfl, hbehind⟩
      | null | number | string | object => exact absurd hmark (by simp [mark])
  | depth, object members, b, rest, others, hrest, hothers, h => by
      have hmark := mark_eq h
      cases b with
      | object members' =>
          obtain ⟨rfl, hbehind⟩ := membersChars_inj _ members members' (membersChars_of_object h)
          exact ⟨rfl, hbehind⟩
      | null | number | string | array => exact absurd hmark (by simp [mark])

/-- The items up to the bracket that closes the array. -/
theorem itemsChars_inj : ∀ (depth : Nat) (a b : List Json) {rest others : List Char},
    itemsChars .compact depth a ++ ']' :: rest = itemsChars .compact depth b ++ ']' :: others →
    a = b ∧ rest = others
  | depth, [], b, rest, others, h => by
      cases b with
      | nil => simpa [itemsChars] using h
      | cons item items => simp [itemsChars] at h
  | depth, item :: items, b, rest, others, h => by
      cases b with
      | nil => simp [itemsChars] at h
      | cons item' items' =>
          rw [itemsChars, itemsChars, gap_compact] at h
          simp only [List.cons_append, List.nil_append, List.append_assoc, List.cons.injEq,
            true_and] at h
          obtain ⟨rfl, hitems⟩ := chars_inj depth item item'
            (noDigit_itemsChars _ _ (noDigit_cons (by decide) _))
            (noDigit_itemsChars _ _ (noDigit_cons (by decide) _)) h
          obtain ⟨rfl, hbehind⟩ := itemsChars_inj depth items items' hitems
          exact ⟨rfl, hbehind⟩

/-- The members up to the bracket that closes the object. -/
theorem membersChars_inj : ∀ (depth : Nat) (a b : List (String × Json)) {rest others : List Char},
    membersChars .compact depth a ++ '\x7d' :: rest =
      membersChars .compact depth b ++ '\x7d' :: others →
    a = b ∧ rest = others
  | depth, [], b, rest, others, h => by
      cases b with
      | nil => simpa [membersChars] using h
      | cons member members => simp [membersChars] at h
  | depth, (key, value) :: members, b, rest, others, h => by
      cases b with
      | nil => simp [membersChars] at h
      | cons member members' =>
          obtain ⟨key', value'⟩ := member
          rw [membersChars, membersChars, gap_compact, colon_compact] at h
          simp only [List.cons_append, List.nil_append, List.append_assoc, List.cons.injEq,
            true_and] at h
          obtain ⟨rfl, hvalue⟩ := quoted_inj h
          rw [List.cons.injEq] at hvalue
          obtain ⟨rfl, hmembers⟩ := chars_inj depth value value'
            (noDigit_membersChars _ _ (noDigit_cons (by decide) _))
            (noDigit_membersChars _ _ (noDigit_cons (by decide) _)) hvalue.2
          obtain ⟨rfl, hbehind⟩ := membersChars_inj depth members members' hmembers
          exact ⟨rfl, hbehind⟩
end

/-- Two values with the same compact text are the same. -/
theorem compact_injective : Function.Injective compact := by
  intro a b h
  have hchars : a.chars .compact 0 ++ [] = b.chars .compact 0 ++ [] := by
    rw [← toList_compact, ← toList_compact, h]
  exact (chars_inj 0 a b noDigit_nil noDigit_nil hchars).1

/-- Two values with the same text on indented lines are the same. -/
theorem indented_injective : Function.Injective indented := by
  intro a b h
  refine compact_injective ?_
  rw [← withoutLayout_indented, ← withoutLayout_indented, h]

end Json

end Scriptlet
