import Scriptlet.Error.Diagnostic
import Mathlib.Data.List.TakeWhile

/-!
# Buffers

A text as it is held in memory: characters under indices that are machine words. Looking at an
index, cutting out a stretch and computing with words are checked, and panic where the index, the
stretch or the number does not exist.

What the library reads of a text by its rest, a program reads of a buffer by index. The functions
here do so, one access after another, and each is shown to give what the library gives, with no
panic, at every offset, be it inside the buffer, past its end or past every word.
-/

namespace Scriptlet

/-- What stops a program that does what its language does not define. -/
inductive Panic where
  | indexOutOfRange | sliceOutOfRange | overflow | underflow
deriving DecidableEq, Repr

/-- What an operation gives that may panic. -/
abbrev Checked : Type → Type :=
  Except Panic

@[simp] theorem Checked.ok_bind {α β : Type} (value : α) (rest : α → Checked β) :
    (Except.ok value >>= rest : Checked β) = rest value := rfl

@[simp] theorem Checked.pure_eq {α : Type} (value : α) : (pure value : Checked α) = .ok value := rfl

/-! ## Words -/

/-- The number of machine words. -/
def wordCount : Nat := UInt64.size

namespace Word

/-- The sum of two words. -/
def add (first second : Nat) : Checked Nat :=
  if first + second < wordCount then .ok (first + second) else .error .overflow

/-- The difference of two words. -/
def sub (first second : Nat) : Checked Nat :=
  if second ≤ first then .ok (first - second) else .error .underflow

/-- The sum of two words, or the greatest word. -/
def addSaturating (first second : Nat) : Nat :=
  min (first + second) (wordCount - 1)

theorem add_eq {first second : Nat} (h : first + second < wordCount) :
    add first second = .ok (first + second) :=
  if_pos h

theorem sub_eq {first second : Nat} (h : second ≤ first) :
    sub first second = .ok (first - second) :=
  if_pos h

@[simp] theorem sub_add_left (first second : Nat) : sub (first + second) first = .ok second := by
  rw [sub_eq (Nat.le_add_right first second), Nat.add_sub_cancel_left]

end Word

/-! ## Accesses -/

/-- The characters of a text in memory. Each takes four bytes, and no object in memory has half as
many bytes as there are words. -/
structure Buffer where
  chars : List Char
  fits : 4 * chars.length < wordCount / 2

namespace Buffer

variable (buffer : Buffer)

/-- The number of characters. -/
def length : Nat :=
  buffer.chars.length

/-- The character at an index. -/
def char (index : Nat) : Checked Char :=
  match buffer.chars[index]? with
  | some c => .ok c
  | none => .error .indexOutOfRange

/-- The characters from one index up to another. -/
def slice (start stop : Nat) : Checked (List Char) :=
  if start ≤ stop ∧ stop ≤ buffer.length then .ok ((buffer.chars.drop start).take (stop - start))
  else .error .sliceOutOfRange

variable {buffer}

/-- Every index is a word, and so is the next number. -/
theorem length_lt : buffer.length + 1 < wordCount := by
  have hfits := buffer.fits
  simp only [wordCount, UInt64.size] at hfits ⊢
  unfold length
  omega

/-- The next index after one in the buffer is a word. -/
theorem add_one {index : Nat} (h : index ≤ buffer.length) :
    Word.add index 1 = .ok (index + 1) :=
  Word.add_eq (Nat.lt_of_le_of_lt (Nat.add_le_add_right h 1) length_lt)

section

variable {index : Nat} {c : Char} {rest : List Char} (h : buffer.chars.drop index = c :: rest)

include h

/-- Where a character is left, its index lies in the buffer. -/
theorem lt_of_drop_eq : index < buffer.length := by
  have hlength := congrArg List.length h
  rw [List.length_drop, List.length_cons] at hlength
  unfold length
  omega

theorem getElem?_of_drop_eq : buffer.chars[index]? = some c := by
  rw [← List.head?_drop, h]
  rfl

theorem char_of_drop_eq : buffer.char index = .ok c := by
  rw [char, getElem?_of_drop_eq h]

theorem drop_succ_of_drop_eq : buffer.chars.drop (index + 1) = rest := by
  rw [← List.tail_drop, h]
  rfl

end

/-- Past the end nothing is left. -/
theorem drop_eq_nil {index : Nat} (h : buffer.length ≤ index) : buffer.chars.drop index = [] :=
  List.drop_eq_nil_of_le h

/-- What the rest starts with is cut out. -/
theorem slice_of_drop_eq {start : Nat} {body rest : List Char}
    (h : buffer.chars.drop start = body ++ rest) (hstart : start ≤ buffer.length) :
    buffer.slice start (start + body.length) = .ok body := by
  have hlength := congrArg List.length h
  rw [List.length_drop, List.length_append] at hlength
  have hstop : start + body.length ≤ buffer.length := by
    unfold length at hstart ⊢
    omega
  rw [slice, if_pos ⟨Nat.le_add_right _ _, hstop⟩, h, Nat.add_sub_cancel_left, List.take_left]

/-! ## Loops over indices -/

/-- Looks at one character after another, from an index on, until the check finds something or the
buffer ends. -/
def scanFrom (buffer : Buffer) {α : Type} (check : Nat → Char → Checked (Option α))
    (atEnd : Nat → α) (index : Nat) : Checked α :=
  if index < buffer.length then
    match buffer.char index >>= check index with
    | .error panic => .error panic
    | .ok (some found) => .ok found
    | .ok none =>
      match _ : Word.add index 1 with
      | .error panic => .error panic
      | .ok next => scanFrom buffer check atEnd next
  else .ok (atEnd index)
termination_by buffer.length - index
decreasing_by
  next hnext =>
    unfold Word.add at hnext
    split at hnext <;> cases hnext
    omega

section

variable {α : Type} {check : Nat → Char → Checked (Option α)} {atEnd : Nat → α} {index : Nat}

theorem scanFrom_of_le (h : buffer.length ≤ index) :
    buffer.scanFrom check atEnd index = .ok (atEnd index) := by
  rw [scanFrom, if_neg (by omega)]

/-- A round of the loop: the index of the next round is a word. -/
theorem scanFrom_of_drop_eq {c : Char} {rest : List Char}
    (h : buffer.chars.drop index = c :: rest) :
    buffer.scanFrom check atEnd index = check index c >>= fun found? =>
      match found? with
      | some found => .ok found
      | none => buffer.scanFrom check atEnd (index + 1) := by
  have hlt := lt_of_drop_eq h
  rw [scanFrom, if_pos hlt, char_of_drop_eq h, Checked.ok_bind]
  cases check index c with
  | error panic => rfl
  | ok found? =>
      cases found? with
      | some found => rfl
      | none =>
          dsimp only [Checked.ok_bind]
          split
          · next panic hpanic =>
            rw [add_one hlt.le] at hpanic
            cases hpanic
          · next next hnext =>
            rw [add_one hlt.le] at hnext
            cases hnext
            rfl

end

/-- The first index from one on whose character is not accepted, or the end. -/
def runEnd (buffer : Buffer) (accept : Char → Bool) (index : Nat) : Checked Nat :=
  buffer.scanFrom (fun index c => return if accept c then none else some index) id index

/-- A run ends behind the characters that are accepted. -/
theorem runEnd_eq (accept : Char → Bool) (index : Nat) :
    buffer.runEnd accept index =
      .ok (index + ((buffer.chars.drop index).takeWhile accept).length) := by
  induction hdrop : buffer.chars.drop index generalizing index with
  | nil =>
      have hend : buffer.length ≤ index := List.drop_eq_nil_iff.1 hdrop
      rw [runEnd, scanFrom_of_le hend]
      rfl
  | cons c rest ih =>
      rw [runEnd, scanFrom_of_drop_eq hdrop, Checked.pure_eq, Checked.ok_bind]
      by_cases haccept : accept c = true
      · rw [if_pos haccept, List.takeWhile_cons_of_pos haccept, List.length_cons]
        refine (ih (index + 1) (drop_succ_of_drop_eq hdrop)).trans (congrArg Except.ok ?_)
        omega
      · rw [if_neg haccept, List.takeWhile_cons_of_neg haccept]
        rfl

/-- The first index from one on whose character is not blank. -/
def skipBlanks (buffer : Buffer) (offset : Nat) : Checked Nat :=
  buffer.runEnd Text.isBlank offset

theorem skipBlanks_eq (offset : Nat) :
    buffer.skipBlanks offset =
      .ok (offset + Text.leadingBlanks (buffer.chars.drop offset)) :=
  runEnd_eq Text.isBlank offset

/-! ## Quoting and locating -/

/-- The characters around an offset, between bounds that stay words and in the buffer. -/
def surroundingExcerpt (buffer : Buffer) (offset : Nat) : Checked String := do
  let start := min (offset - 8) buffer.length
  let stop := min (Word.addSaturating offset 16) buffer.length
  let window ← buffer.slice start stop
  return String.ofList (window.map fun c => if c = '\n' then ' ' else c)

theorem surroundingExcerpt_eq (offset : Nat) :
    buffer.surroundingExcerpt offset = .ok (Text.surroundingExcerpt buffer.chars offset) := by
  have hlength := buffer.length_lt
  have hstop : min (Word.addSaturating offset 16) buffer.length =
      min (offset + 16) buffer.length := by
    unfold Word.addSaturating
    omega
  have horder : min (offset - 8) buffer.length ≤ min (offset + 16) buffer.length := by omega
  have hwindow : (buffer.chars.drop (min (offset - 8) buffer.length)).take
        (min (offset + 16) buffer.length - min (offset - 8) buffer.length) =
      (buffer.chars.take (offset + 16)).drop (offset - 8) := by
    rw [List.drop_take]
    by_cases hin : offset - 8 ≤ buffer.length
    · rw [Nat.min_eq_left hin, List.take_eq_take_iff, List.length_drop]
      unfold length
      omega
    · have hend : buffer.length ≤ offset - 8 := by omega
      rw [drop_eq_nil hend, drop_eq_nil (by omega), List.take_nil, List.take_nil]
  simp only [surroundingExcerpt, slice, hstop]
  rw [if_pos ⟨horder, Nat.min_le_right _ _⟩, Checked.ok_bind, hwindow]
  rfl

/-- The excerpt that an error of a class shows. The rest of a line takes no index. -/
def excerpt (buffer : Buffer) (kind : ErrorKind) (offset : Nat) : Checked String :=
  match kind with
  | .lexical => .ok (Text.lineExcerpt buffer.chars offset)
  | _ => buffer.surroundingExcerpt offset

theorem excerpt_eq (kind : ErrorKind) (offset : Nat) :
    buffer.excerpt kind offset = .ok (kind.excerpt buffer.chars offset) := by
  cases kind
  case lexical => rfl
  all_goals exact surroundingExcerpt_eq offset

/-- A failure in words. -/
def report (buffer : Buffer) (failure : Failure) : Checked SyntaxError := do
  let excerpt ← buffer.excerpt failure.cause.kind failure.offset
  return ⟨failure.cause.kind, failure.cause.message, failure.offset, excerpt, failure.statement⟩

theorem report_eq (failure : Failure) :
    buffer.report failure = .ok (failure.report buffer.chars) := by
  rw [report, excerpt_eq]
  rfl

/-- The location after a character that stands at `place`. -/
def locationAfter (place : Location) (c : Char) : Checked Location :=
  if c = '\n' then do return ⟨← Word.add place.line 1, 1⟩
  else do return ⟨place.line, ← Word.add place.column 1⟩

/-- The location of an offset. -/
def locate (buffer : Buffer) (offset : Nat) : Checked Location :=
  (buffer.chars.take offset).foldlM locationAfter .first

/-- Lines and columns stay words where no more characters follow than words are left. -/
theorem foldlM_locationAfter {place : Location} {text : List Char}
    (h : max place.line place.column + text.length + 1 < wordCount) :
    text.foldlM locationAfter place = .ok (text.foldl Location.after place) := by
  induction text generalizing place with
  | nil => rfl
  | cons c text ih =>
      rw [List.length_cons] at h
      have hafter : locationAfter place c = .ok (place.after c) := by
        unfold locationAfter Location.after
        split
        · rw [Word.add_eq (by omega)]
          rfl
        · rw [Word.add_eq (by omega)]
          rfl
      have hle : max (place.after c).line (place.after c).column ≤
          max place.line place.column + 1 := by
        unfold Location.after
        split <;> dsimp only <;> omega
      rw [List.foldlM_cons, hafter, Checked.ok_bind, List.foldl_cons]
      exact ih (by omega)

theorem locate_eq (offset : Nat) :
    buffer.locate offset = .ok (Location.ofOffset buffer.chars offset) := by
  refine foldlM_locationAfter ?_
  have hfits := buffer.fits
  simp only [wordCount, UInt64.size] at hfits ⊢
  simp only [Location.first, List.length_take]
  omega

/-- The remarks on a syntax error. -/
def notes (buffer : Buffer) (error : SyntaxError) : Checked (List Note) :=
  match error.statement with
  | some start =>
    if start = error.offset then return []
    else do return [⟨"in the statement starting here", ← buffer.locate start⟩]
  | none => return []

theorem notes_eq (error : SyntaxError) :
    buffer.notes error = .ok (error.notes buffer.chars) := by
  unfold notes SyntaxError.notes
  cases error.statement with
  | none => rfl
  | some start =>
      dsimp only
      split
      · rfl
      · rw [locate_eq]
        rfl

/-- A syntax error as a diagnostic. -/
def toDiagnostic (buffer : Buffer) (error : SyntaxError) : Checked Diagnostic := do
  let notes ← buffer.notes error
  let place ← buffer.locate error.offset
  return {
    code := error.kind.code
    message := error.kind.label ++ ": " ++ error.message
    offset := error.offset
    place := place
    excerpt := error.excerpt
    notes := notes }

theorem toDiagnostic_eq (error : SyntaxError) :
    buffer.toDiagnostic error = .ok (error.toDiagnostic buffer.chars) := by
  rw [toDiagnostic, notes_eq, locate_eq]
  rfl

end Buffer

end Scriptlet
