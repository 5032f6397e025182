import Scriptlet.Cursor
import Scriptlet.Proofs.Buffer
import Scriptlet.Proofs.Places

/-!
# Scanning a buffer

The scanner as it runs over a buffer, index after index: a run of characters is cut out between its
ends, a quote is looked at together with the character before it, a point with the character behind
it, and lengths are differences of indices. `Buffer.nextToken_eq` says that it never panics and
gives the token that the rest of the text starts with, at every offset.
-/

namespace Scriptlet

/-- A lexeme as the token at an offset. -/
def Lexeme.token (lexeme : Lexeme) (offset : Nat) : Token :=
  ⟨lexeme.kind, lexeme.text, ⟨offset, lexeme.length⟩⟩

namespace Buffer

open Spelling Text

variable {buffer : Buffer} {offset : Nat} {c : Char} {rest : List Char}

/-! ## Tokens by their ends -/

/-- The token of the characters from one index up to another. -/
def spelled (buffer : Buffer) (kind : Kind) (offset stop : Nat) : Checked Token := do
  let body ← buffer.slice offset stop
  let length ← Word.sub stop offset
  return ⟨kind, String.ofList body, ⟨offset, length⟩⟩

/-- A token of what the rest starts with. -/
theorem spelled_eq {kind : Kind} {body : List Char} (h : buffer.chars.drop offset = body ++ rest)
    (hoffset : offset ≤ buffer.length) :
    buffer.spelled kind offset (offset + body.length) =
      .ok ((Lexeme.spelled kind body).token offset) := by
  rw [spelled, slice_of_drop_eq h hoffset, Word.sub_add_left]
  rfl

/-- The word at an offset, if one starts there. -/
def scanWord (buffer : Buffer) (offset : Nat) : Checked (Option Token) :=
  match buffer.chars[offset]? with
  | none => return none
  | some c =>
    if isWordStart c then do
      let next ← Word.add offset 1
      let stop ← buffer.runEnd isWordChar next
      return some (← buffer.spelled .word offset stop)
    else return none

/-- The start of a word belongs to the word. -/
theorem takeWhile_isWordChar (hc : isWordStart c = true) :
    (c :: rest).takeWhile isWordChar = c :: rest.takeWhile isWordChar :=
  List.takeWhile_cons_of_pos (by simp [isWordChar, hc])

theorem scanWord_of_isWordStart (h : buffer.chars.drop offset = c :: rest)
    (hc : isWordStart c = true) :
    buffer.scanWord offset = .ok (some ((Lexeme.scanWord (c :: rest)).token offset)) := by
  have hlt := lt_of_drop_eq h
  have hword : (c :: rest).takeWhile isWordChar = _ := takeWhile_isWordChar hc
  have hbody : buffer.chars.drop offset =
      (c :: rest.takeWhile isWordChar) ++ rest.dropWhile isWordChar := by
    rw [h, List.cons_append, List.takeWhile_append_dropWhile]
  have hstop : offset + 1 + (rest.takeWhile isWordChar).length =
      offset + (c :: rest.takeWhile isWordChar).length := by
    rw [List.length_cons]
    omega
  simp only [scanWord, getElem?_of_drop_eq h, if_pos hc, add_one hlt.le, Checked.ok_bind,
    runEnd_eq, drop_succ_of_drop_eq h, hstop, spelled_eq hbody hlt.le, Lexeme.scanWord, hword]
  rfl

/-- Where no word starts there is none. -/
theorem scanWord_eq_none (h : ∀ c ∈ (buffer.chars.drop offset).head?, isWordStart c = false) :
    buffer.scanWord offset = .ok none := by
  rw [List.head?_drop] at h
  unfold scanWord
  split
  · rfl
  · next c hc => rw [if_neg (by rw [h c hc]; decide)]; rfl

/-- The operator at an offset. -/
def scanOperator (buffer : Buffer) (offset : Nat) : Checked (Except Fault Token) := do
  let stop ← buffer.runEnd isOperatorChar offset
  let run ← buffer.slice offset stop
  match operatorKind? (String.ofList run) with
  | some kind =>
    let length ← Word.sub stop offset
    return .ok ⟨kind, String.ofList run, ⟨offset, length⟩⟩
  | none => return .error (.unknownOperator (String.ofList run))

theorem scanOperator_eq (h : buffer.chars.drop offset = c :: rest) :
    buffer.scanOperator offset =
      .ok ((Lexeme.scanOperator (c :: rest)).map (·.token offset)) := by
  obtain ⟨after, htext, -⟩ := IsRun.exists_rest isOperatorChar (c :: rest)
  have hslice := slice_of_drop_eq (h.trans htext) (lt_of_drop_eq h).le
  simp only [scanOperator, runEnd_eq, h, Checked.ok_bind, hslice, Lexeme.scanOperator]
  cases operatorKind? (String.ofList ((c :: rest).takeWhile isOperatorChar)) with
  | none => rfl
  | some kind =>
      dsimp only
      rw [Word.sub_add_left]
      rfl

/-! ## Strings -/

/-- Whether the character at an index ends a string. The one before it is looked at only where the
quote stands. -/
def endsString (buffer : Buffer) (quote : Char) (index : Nat) (c : Char) : Checked Bool :=
  if c = quote then do
    let before ← Word.sub index 1
    let previous ← buffer.char before
    return decide (previous ≠ '\\')
  else return false

/-- The index of the quote that ends a string, from an index in it on. -/
def stringEnd (buffer : Buffer) (quote : Char) (index : Nat) : Checked (Option Nat) :=
  buffer.scanFrom (fun index c => do
    if c = '\n' then return some none
    else if ← buffer.endsString quote index c then return some (some index)
    else return none) (fun _ => none) index

theorem endsString_eq {previous quote : Char}
    (h : buffer.chars.drop offset = previous :: c :: rest) :
    buffer.endsString quote (offset + 1) c = .ok (decide (c = quote ∧ previous ≠ '\\')) := by
  unfold endsString
  split
  · next hquote =>
    rw [Word.sub_eq (Nat.le_add_left 1 offset), Checked.ok_bind, Nat.add_sub_cancel,
      char_of_drop_eq h]
    simp [hquote]
  · next hquote => simp [hquote]

/-- What is taken already stands before what is found. -/
theorem stringBody_eq_map (quote previous : Char) (taken text : List Char) :
    Lexeme.stringBody quote previous taken text =
      (Lexeme.stringBody quote previous [] text).map (taken.reverse ++ ·) := by
  induction text generalizing previous taken with
  | nil => rfl
  | cons c text ih =>
      simp only [Lexeme.stringBody]
      split
      · rfl
      · split
        · simp
        · rw [ih c (c :: taken), ih c [c], Option.map_map]
          congr 1
          funext body
          simp

/-- The quote that ends a string is found behind its body. -/
theorem stringEnd_eq {previous : Char} (quote : Char) {text : List Char}
    (h : buffer.chars.drop offset = previous :: text) :
    buffer.stringEnd quote (offset + 1) =
      .ok ((Lexeme.stringBody quote previous [] text).map (offset + 1 + ·.length)) := by
  induction text generalizing offset previous with
  | nil =>
      have hlength := congrArg List.length h
      rw [List.length_drop, List.length_singleton] at hlength
      rw [stringEnd, scanFrom_of_le (by unfold length; omega)]
      rfl
  | cons c text ih =>
      have hrest := drop_succ_of_drop_eq h
      rw [stringEnd, scanFrom_of_drop_eq hrest, Lexeme.stringBody, endsString_eq h]
      by_cases hline : c = '\n'
      · simp only [if_pos hline]
        rfl
      by_cases hends : c = quote ∧ previous ≠ '\\'
      · simp only [if_neg hline, if_pos hends]
        simp [hends]
      · rw [if_neg hline, if_neg hline, if_neg hends, stringBody_eq_map quote c [c] text,
          Option.map_map, Checked.ok_bind, decide_eq_false hends]
        refine (ih hrest).trans (congrArg Except.ok ?_)
        congr 1
        funext body
        simp only [Function.comp, List.length_append, List.length_reverse, List.length_singleton]
        omega

/-- The string whose quote stands at an offset. -/
def scanString (buffer : Buffer) (quote : Char) (offset : Nat) : Checked (Except Fault Token) := do
  let first ← Word.add offset 1
  match ← buffer.stringEnd quote first with
  | some index =>
    let body ← buffer.slice first index
    let length ← Word.sub (← Word.add index 1) offset
    return .ok ⟨.string, String.ofList body, ⟨offset, length⟩⟩
  | none => return .error .unterminatedString

theorem scanString_eq {quote : Char} (h : buffer.chars.drop offset = quote :: rest)
    (hquote : quote ≠ '\n') :
    buffer.scanString quote offset =
      .ok ((Lexeme.scanString quote rest).map (·.token offset)) := by
  have hlt := lt_of_drop_eq h
  have hrest := drop_succ_of_drop_eq h
  simp only [scanString, add_one hlt.le, Checked.ok_bind, stringEnd_eq quote h, Lexeme.scanString]
  cases hbody : Lexeme.stringBody quote quote [] rest with
  | none => rfl
  | some body =>
      obtain ⟨found, more, hsplit, hfound, -⟩ := (Lexeme.stringBody_eq_some_iff hquote).1 hbody
      obtain rfl : body = found := hfound
      have hdrop : buffer.chars.drop (offset + 1 + body.length) = quote :: more := by
        rw [← List.drop_drop, hrest, hsplit, List.drop_left]
      have hslice := slice_of_drop_eq (hrest.trans hsplit) hlt
      have hlength : offset + 1 + body.length + 1 = offset + (body.length + 2) := by omega
      simp only [Option.map_some, hslice, add_one (lt_of_drop_eq hdrop).le, Checked.ok_bind,
        hlength, Word.sub_add_left]
      rfl

/-! ## Numbers and points -/

/-- Where a number ends whose digits before a point end at an index. The point is looked at only
where a character follows it. -/
def fractionEnd (buffer : Buffer) (whole : Nat) : Checked Nat := do
  let next ← Word.add whole 1
  if next < buffer.length then
    let point ← buffer.char whole
    if point = '.' then
      let digit ← buffer.char next
      if digit.isDigit then buffer.runEnd Char.isDigit next else return whole
    else return whole
  else return whole

/-- The number whose first digit stands at an offset. -/
def scanNumber (buffer : Buffer) (offset : Nat) : Checked Token := do
  let whole ← buffer.runEnd Char.isDigit offset
  let stop ← buffer.fractionEnd whole
  buffer.spelled .number offset stop

/-- Digits behind a point belong to the number. -/
theorem fractionEnd_of_fraction {whole : Nat} {fraction : List Char}
    (h : buffer.chars.drop whole = '.' :: (fraction ++ rest)) (hne : fraction ≠ [])
    (hrun : IsRun Char.isDigit fraction rest) :
    buffer.fractionEnd whole = .ok (whole + 1 + fraction.length) := by
  obtain ⟨digit, digits, rfl⟩ := List.exists_cons_of_ne_nil hne
  have hdigit : digit.isDigit = true := hrun.all digit List.mem_cons_self
  have hnext := drop_succ_of_drop_eq h
  simp only [fractionEnd, add_one (lt_of_drop_eq h).le, Checked.ok_bind,
    if_pos (lt_of_drop_eq hnext), char_of_drop_eq h, char_of_drop_eq hnext, if_true, if_pos hdigit,
    runEnd_eq, hnext, hrun.takeWhile_eq]

/-- Without a digit behind a point the number ends before it. -/
theorem fractionEnd_of_not {whole : Nat} (hwhole : whole ≤ buffer.length)
    (h : ∀ d more, buffer.chars.drop whole = '.' :: d :: more → d.isDigit = false) :
    buffer.fractionEnd whole = .ok whole := by
  simp only [fractionEnd, add_one hwhole, Checked.ok_bind]
  split
  · next hlt =>
    obtain ⟨d, more, hnext⟩ : ∃ d more, buffer.chars.drop (whole + 1) = d :: more :=
      ⟨_, _, List.drop_eq_getElem_cons hlt⟩
    obtain ⟨c, rest, hdrop⟩ : ∃ c rest, buffer.chars.drop whole = c :: rest :=
      ⟨_, _, List.drop_eq_getElem_cons (Nat.lt_of_succ_lt hlt)⟩
    obtain rfl : d :: more = rest := hnext.symm.trans (drop_succ_of_drop_eq hdrop)
    rw [char_of_drop_eq hdrop, char_of_drop_eq hnext, Checked.ok_bind]
    split
    · next hpoint =>
      rw [Checked.ok_bind, if_neg (by rw [h d more (hpoint ▸ hdrop)]; decide)]
      rfl
    · rfl
  · rfl

theorem scanNumber_eq (h : buffer.chars.drop offset = c :: rest) :
    buffer.scanNumber offset = .ok ((Lexeme.scanNumber (c :: rest)).token offset) := by
  have hoffset := (lt_of_drop_eq h).le
  obtain ⟨after, htext, hwhole⟩ := IsRun.exists_rest Char.isDigit (c :: rest)
  simp only [scanNumber, runEnd_eq, h, Checked.ok_bind]
  generalize (c :: rest).takeWhile Char.isDigit = whole at htext hwhole
  rw [htext] at h ⊢
  have hafter : buffer.chars.drop (offset + whole.length) = after := by
    rw [← List.drop_drop, h, List.drop_left]
  have hstop : offset + whole.length ≤ buffer.length := by
    have hlength := congrArg List.length h
    rw [List.length_drop, List.length_append] at hlength
    unfold length at hoffset ⊢
    omega
  by_cases hpoint : ∃ d more, after = '.' :: d :: more ∧ d.isDigit = true
  · obtain ⟨d, more, rfl, hd⟩ := hpoint
    obtain ⟨behind, hmore, hfraction⟩ := IsRun.exists_rest Char.isDigit (d :: more)
    have hne : (d :: more).takeWhile Char.isDigit ≠ [] := by simp [hd]
    generalize (d :: more).takeWhile Char.isDigit = fraction at hmore hfraction hne
    rw [hmore] at h hafter ⊢
    have hbody : buffer.chars.drop offset = (whole ++ '.' :: fraction) ++ behind := by
      rw [h, List.append_assoc, List.cons_append]
    have hend : offset + whole.length + 1 + fraction.length =
        offset + (whole ++ '.' :: fraction).length := by
      rw [List.length_append, List.length_cons]
      omega
    rw [fractionEnd_of_fraction hafter hne hfraction, Checked.ok_bind, hend,
      spelled_eq hbody hoffset, Lexeme.scanNumber_decimal hwhole.all hne hfraction]
  · have hfraction : ∀ d more, after = '.' :: d :: more → d.isDigit = false :=
      fun d more hafter => Bool.eq_false_iff.2 fun hd => hpoint ⟨d, more, hafter, hd⟩
    rw [fractionEnd_of_not hstop (hafter ▸ hfraction), Checked.ok_bind, spelled_eq h hoffset,
      Lexeme.scanNumber_whole hwhole hfraction]

/-- What a point at an offset starts. -/
def scanPoint (buffer : Buffer) (offset : Nat) : Checked (Except Fault Token) := do
  let next ← Word.add offset 1
  if (buffer.chars[next]?).any Char.isDigit then
    let stop ← buffer.runEnd Char.isDigit next
    let digits ← buffer.slice next stop
    let length ← Word.sub stop offset
    return .ok ⟨.number, String.ofList ('0' :: '.' :: digits), ⟨offset, length⟩⟩
  else
    let start ← buffer.runEnd isBlank next
    match ← buffer.scanWord start with
    | some name =>
      let stop ← Word.add name.span.offset name.span.length
      return .ok ⟨.field, name.text, .between offset stop⟩
    | none => return .error .missingFieldName

/-- A word in the buffer stops at an index of the buffer. -/
theorem add_of_scanWord {more : List Char} (h : buffer.chars.drop offset = c :: more) :
    Word.add offset (Lexeme.scanWord (c :: more)).length =
      .ok (offset + (Lexeme.scanWord (c :: more)).length) := by
  have hle : (Lexeme.scanWord (c :: more)).length ≤ (c :: more).length :=
    (List.takeWhile_sublist isWordChar).length_le
  have hlength := congrArg List.length h
  rw [List.length_drop] at hlength
  have hlt := lt_of_drop_eq h
  have hwords := buffer.length_lt
  refine Word.add_eq ?_
  unfold length at hlt hwords
  omega

/-- A digit stands at an offset when digits stand there. -/
theorem any_isDigit (offset : Nat) :
    (buffer.chars[offset]?).any Char.isDigit =
      !((buffer.chars.drop offset).takeWhile Char.isDigit).isEmpty := by
  rw [← List.head?_drop]
  cases buffer.chars.drop offset with
  | nil => rfl
  | cons c rest => cases hc : c.isDigit <;> simp [hc]

/-- Behind the blanks at an offset stands the text without them. -/
theorem drop_blanks (h : buffer.chars.drop offset = rest) :
    buffer.chars.drop (offset + (rest.takeWhile isBlank).length) = dropBlanks rest := by
  obtain ⟨more, hmore, hrun⟩ := IsRun.exists_rest isBlank rest
  rw [← List.drop_drop, h]
  calc rest.drop (rest.takeWhile isBlank).length
    _ = (rest.takeWhile isBlank ++ more).drop (rest.takeWhile isBlank).length := by rw [← hmore]
    _ = more := List.drop_left
    _ = dropBlanks (rest.takeWhile isBlank ++ more) := hrun.dropWhile_eq.symm
    _ = dropBlanks rest := by rw [← hmore]

theorem scanPoint_eq (h : buffer.chars.drop offset = '.' :: rest) :
    buffer.scanPoint offset = .ok ((Lexeme.scanPoint rest).map (·.token offset)) := by
  have hlt := lt_of_drop_eq h
  have hrest := drop_succ_of_drop_eq h
  have hblanks := drop_blanks hrest
  simp only [scanPoint, add_one hlt.le, Checked.ok_bind, any_isDigit, runEnd_eq, hrest,
    Lexeme.scanPoint]
  obtain ⟨after, htext, -⟩ := IsRun.exists_rest Char.isDigit rest
  generalize rest.takeWhile Char.isDigit = digits at htext
  cases hempty : digits.isEmpty with
  | false =>
      have hslice := slice_of_drop_eq (hrest.trans htext) hlt
      have hlength : Word.sub (offset + 1 + digits.length) offset = .ok (1 + digits.length) := by
        rw [Nat.add_assoc, Word.sub_add_left]
      rw [Bool.not_false, if_pos rfl, hslice, Checked.ok_bind, hlength]
      rfl
  | true =>
      rw [Bool.not_true, if_neg (by decide), if_pos rfl]
      cases hname : dropBlanks rest with
      | nil =>
          rw [hname] at hblanks
          rw [scanWord_eq_none (by rw [hblanks]; simp)]
          rfl
      | cons c more =>
          rw [hname] at hblanks
          dsimp only
          by_cases hc : isWordStart c = true
          · rw [scanWord_of_isWordStart hblanks hc, Checked.ok_bind, if_pos hc]
            dsimp only [Lexeme.token]
            rw [add_of_scanWord hblanks, Checked.ok_bind]
            simp only [Lexeme.scanWord, Lexeme.spelled, takeWhile_isWordChar hc, Span.between,
              leadingBlanks, Checked.pure_eq, Except.map]
            congr 4
            omega
          · rw [if_neg hc, scanWord_eq_none (by rw [hblanks]; simpa using hc)]
            rfl

/-! ## Tokens -/

/-- The token that starts with a character at an offset. The character decides, in this order. -/
def scanToken (buffer : Buffer) (offset : Nat) (c : Char) : Checked (Except Fault Token) :=
  match punctuationKind? c with
  | some kind => return .ok ⟨kind, String.ofList [c], ⟨offset, 1⟩⟩
  | none =>
    if isOperatorChar c then buffer.scanOperator offset
    else do
      match ← buffer.scanWord offset with
      | some word => return .ok word
      | none =>
        if c = '\'' ∨ c = '"' then buffer.scanString c offset
        else if c.isDigit then return .ok (← buffer.scanNumber offset)
        else if c = '.' then buffer.scanPoint offset
        else return .error (.unexpectedCharacter c)

/-- The token at an offset, or why there is none. At the end of the buffer and past it there is
none. -/
def nextToken (buffer : Buffer) (offset : Nat) : Checked (Except Failure (Option Token)) :=
  match buffer.chars[offset]? with
  | none => return .ok none
  | some c => do
    match ← buffer.scanToken offset c with
    | .ok token => return .ok (some token)
    | .error fault => return .error ⟨.fault fault, offset, none⟩

theorem scanToken_eq (h : buffer.chars.drop offset = c :: rest) :
    ∃ result, Lexeme.scan (c :: rest) = some <$> result ∧
      buffer.scanToken offset c = .ok (result.map (·.token offset)) := by
  unfold scanToken
  cases hpunctuation : punctuationKind? c with
  | some kind => exact ⟨.ok (.spelled kind [c]), by simp only [Lexeme.scan, hpunctuation]; rfl, rfl⟩
  | none =>
      dsimp only
      by_cases hoperator : isOperatorChar c = true
      · rw [if_pos hoperator]
        exact ⟨_, Lexeme.scan_of_isOperatorChar rest hoperator, scanOperator_eq h⟩
      rw [if_neg hoperator]
      by_cases hword : isWordStart c = true
      · rw [scanWord_of_isWordStart h hword]
        exact ⟨.ok _, Lexeme.scan_of_isWordStart rest hword, rfl⟩
      rw [scanWord_eq_none (by rw [h]; simpa using hword), Checked.ok_bind]
      by_cases hquote : c = '\'' ∨ c = '"'
      · have hline : c ≠ '\n' := by rcases hquote with rfl | rfl <;> decide
        rw [if_pos hquote]
        exact ⟨_, Lexeme.scan_of_quote rest hquote, scanString_eq h hline⟩
      rw [if_neg hquote]
      by_cases hdigit : c.isDigit = true
      · rw [if_pos hdigit, scanNumber_eq h]
        exact ⟨.ok _, Lexeme.scan_of_isDigit rest hdigit, rfl⟩
      rw [if_neg hdigit]
      by_cases hpoint : c = '.'
      · subst hpoint
        exact ⟨_, Lexeme.scan_point rest, scanPoint_eq h⟩
      rw [if_neg hpoint]
      refine ⟨.error (.unexpectedCharacter c), ?_, rfl⟩
      simp only [Lexeme.scan, hpunctuation, hoperator, hword, hquote, hdigit, hpoint, if_false]
      rfl

/-- Over a buffer the scanner gives at every offset what it gives of the rest of the text. -/
theorem nextToken_eq (offset : Nat) :
    buffer.nextToken offset = .ok (Cursor.ofOffset buffer.chars offset).peek := by
  unfold nextToken Cursor.peek Cursor.ofOffset
  cases hdrop : buffer.chars.drop offset with
  | nil =>
      rw [← List.head?_drop, hdrop]
      rfl
  | cons c rest =>
      obtain ⟨result, hscan, htoken⟩ := scanToken_eq hdrop
      rw [getElem?_of_drop_eq hdrop]
      dsimp only
      rw [htoken, hscan]
      cases result <;> rfl

/-! ## Token after token -/

/-- Where the cursor goes over a token, and where the token stops. -/
def past (buffer : Buffer) (token : Token) : Checked (Nat × Nat) := do
  let stop ← Word.add token.span.offset token.span.length
  let next ← buffer.skipBlanks stop
  return (next, stop)

section

variable {token : Token} (h : (Cursor.ofOffset buffer.chars offset).peek = .ok (some token))

include h

/-- A token starts in the buffer. -/
theorem lt_of_peek : offset < buffer.length := by
  by_contra hnot
  have hend : Cursor.ofOffset buffer.chars offset = ⟨offset, []⟩ :=
    congrArg (Cursor.mk offset) (drop_eq_nil (Nat.le_of_not_lt hnot))
  rw [hend] at h
  cases h

/-- Behind a token the cursor is in the buffer. -/
theorem past_in_of_peek : ((Cursor.ofOffset buffer.chars offset).past token).In buffer.chars := by
  have hnext : Place.Next ⟨.ofOffset buffer.chars offset, 0⟩ token := h
  exact hnext.in (Cursor.ofOffset_in (lt_of_peek h).le)

/-- The cursor moves on. -/
theorem lt_past_of_peek :
    offset < ((Cursor.ofOffset buffer.chars offset).past token).offset := by
  have hlt := lt_of_peek h
  have hshorter := Cursor.length_rest_past_lt h
  obtain ⟨before, htext, hpast⟩ := past_in_of_peek h
  have hlength := congrArg List.length htext
  rw [List.length_append, ← hpast] at hlength
  simp only [Cursor.ofOffset, List.length_drop] at hshorter hlength ⊢
  unfold length at hlt
  omega

/-- Over a buffer the cursor moves as it moves over the rest of the text. -/
theorem past_eq : buffer.past token =
    .ok (((Cursor.ofOffset buffer.chars offset).past token).offset, token.span.stop) := by
  have hnext : Place.Next ⟨.ofOffset buffer.chars offset, 0⟩ token := h
  have hoffset : token.span.offset = offset := hnext.offset_eq
  have hrest : (buffer.chars.drop offset).drop token.span.length =
      buffer.chars.drop token.span.stop := by
    rw [List.drop_drop, Span.stop, hoffset]
  obtain ⟨before, htext, hpast⟩ := past_in_of_peek h
  have hstop : token.span.stop ≤ buffer.length := by
    have hlength := congrArg List.length htext
    rw [List.length_append, ← hpast] at hlength
    have hle : token.span.stop ≤ ((Cursor.ofOffset buffer.chars offset).past token).offset :=
      Nat.le_add_right _ _
    unfold length
    omega
  have hadd : Word.add token.span.offset token.span.length = .ok token.span.stop :=
    Word.add_eq (Nat.lt_of_le_of_lt hstop (Nat.lt_of_succ_lt length_lt))
  rw [past, hadd, Checked.ok_bind, skipBlanks_eq, Checked.ok_bind, ← hrest]
  rfl

end

/-- The tokens from an offset to the end of the buffer, after those in `before`, which holds the
last one first. -/
def tokensAfter (buffer : Buffer) (before : List Token) (offset : Nat) :
    Checked (Except Failure (List Token)) :=
  match _ : buffer.nextToken offset with
  | .error panic => .error panic
  | .ok (.error failure) => .ok (.error failure)
  | .ok (.ok none) => .ok (.ok before.reverse)
  | .ok (.ok (some token)) =>
    match _ : buffer.past token with
    | .error panic => .error panic
    | .ok (next, _) => tokensAfter buffer (token :: before) next
termination_by buffer.length - offset
decreasing_by
  next hnext _ hpast =>
    rw [nextToken_eq] at hnext
    have hpeek := Except.ok.inj hnext
    rw [past_eq hpeek] at hpast
    cases hpast
    have hlt := lt_of_peek hpeek
    have hmoves := lt_past_of_peek hpeek
    omega

/-- The tokens of the buffer. -/
def tokens (buffer : Buffer) : Checked (Except Failure (List Token)) := do
  let start ← buffer.skipBlanks 0
  buffer.tokensAfter [] start

theorem tokensAfter_eq (before : List Token) (offset : Nat) :
    buffer.tokensAfter before offset =
      .ok ((Cursor.ofOffset buffer.chars offset).tokensAfter before) := by
  induction hleft : buffer.length - offset using Nat.strongRecOn generalizing before offset with
  | ind left ih =>
      rw [tokensAfter]
      split
      · next panic hpanic =>
        rw [nextToken_eq] at hpanic
        cases hpanic
      · next failure hnext =>
        rw [nextToken_eq] at hnext
        rw [Cursor.tokensAfter]
        split <;> simp_all
      · next hnext =>
        rw [nextToken_eq] at hnext
        rw [Cursor.tokensAfter]
        split <;> simp_all
      · next token hnext =>
        rw [nextToken_eq] at hnext
        have hpeek := Except.ok.inj hnext
        have hplace : Place.Next ⟨.ofOffset buffer.chars offset, 0⟩ token := hpeek
        have hreads := Reads.single hplace
        have hmoves := lt_past_of_peek hpeek
        have hlt := lt_of_peek hpeek
        rw [hreads.tokensAfter_eq before]
        split
        · next panic hpanic =>
          rw [past_eq hpeek] at hpanic
          cases hpanic
        · next next stop hpast =>
          rw [past_eq hpeek] at hpast
          cases hpast
          rw [ih _ (by omega) (token :: before) _ rfl, ← (past_in_of_peek hpeek).eq_ofOffset]
          rfl

theorem tokens_eq : buffer.tokens = .ok (Cursor.start buffer.chars).tokens := by
  have hstart := (Cursor.start_in buffer.chars).eq_ofOffset
  rw [tokens, skipBlanks_eq, Checked.ok_bind, tokensAfter_eq, Cursor.tokens, hstart]
  rfl

end Buffer

end Scriptlet
