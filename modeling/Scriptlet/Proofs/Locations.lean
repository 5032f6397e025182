import Scriptlet.Location
import Mathlib.Data.List.Basic

/-!
# Locations code offsets

Reading a character moves the location strictly on, by line and then by column. What has been read
has as many line starts as the line says, and the column is counted from the last of them, so a
location tells its offset. `Location.ofOffset_codes` puts both together for every text.
-/

namespace Scriptlet

namespace Location

variable {place other third : Location} {text seen rest : List Char} {c : Char}
  {offset stop : Nat}

/-! ## The order of locations -/

/-- A place is before another one, by line and then by column. -/
def Before (place other : Location) : Prop :=
  place.line < other.line ∨ place.line = other.line ∧ place.column < other.column

theorem Before.trans (h : place.Before other) (hother : other.Before third) :
    place.Before third := by
  unfold Before at *
  omega

theorem Before.ne (h : place.Before other) : place ≠ other := by
  rintro rfl
  unfold Before at h
  omega

theorem before_after (place : Location) (c : Char) : place.Before (place.after c) := by
  unfold after
  split
  · exact .inl (Nat.lt_succ_self _)
  · exact .inr ⟨rfl, Nat.lt_succ_self _⟩

/-- Whatever is read moves the location on. -/
theorem before_foldl (place : Location) (c : Char) (text : List Char) :
    place.Before ((c :: text).foldl after place) := by
  induction text generalizing place c with
  | nil => exact place.before_after c
  | cons d text ih => exact (place.before_after c).trans (ih (place.after c) d)

/-- Locations go strictly on with the offsets, up to the end of the text. -/
theorem before_ofOffset (h : offset < stop) (hstop : stop ≤ text.length) :
    (ofOffset text offset).Before (ofOffset text stop) := by
  obtain ⟨count, rfl⟩ := Nat.exists_eq_add_of_le (Nat.le_of_lt h)
  obtain ⟨c, between, hbetween⟩ : ∃ c between, (text.drop offset).take count = c :: between :=
    List.exists_cons_of_length_pos (by rw [List.length_take, List.length_drop]; omega)
  unfold ofOffset
  rw [List.take_add, List.foldl_append, hbetween]
  exact before_foldl _ c between

/-! ## Where the lines start -/

/-- The offsets at which the lines of a text start: the first one at the start of the text, and each
other one just behind a line feed. -/
def lineStarts (text : List Char) : List Nat :=
  0 :: (text.findIdxs (· == '\n')).map (· + 1)

/-- The lines of the front part of a text start where the first lines of the text do. -/
theorem lineStarts_append (seen rest : List Char) :
    ∃ more, lineStarts (seen ++ rest) = lineStarts seen ++ more := by
  unfold lineStarts
  rw [List.findIdxs_append, List.map_append]
  exact ⟨_, rfl⟩

theorem lineStarts_concat (seen : List Char) (c : Char) :
    lineStarts (seen ++ [c]) =
      if c = '\n' then lineStarts seen ++ [seen.length + 1] else lineStarts seen := by
  unfold lineStarts
  rw [List.findIdxs_append, List.findIdxs_singleton]
  by_cases hc : c = '\n' <;> simp [hc]

/-- The location behind what has been read: the line says how many lines have started, and the
column counts from the start of the last one. -/
structure Tells (place : Location) (seen : List Char) : Prop where
  line_eq : place.line = (lineStarts seen).length
  column_pos : 0 < place.column
  column_eq : ∃ start, (lineStarts seen).getLast? = some start ∧
    seen.length = place.column - 1 + start

theorem tells_first : first.Tells [] :=
  ⟨rfl, Nat.one_pos, 0, rfl, rfl⟩

/-- One more character is told as well. -/
theorem Tells.after (h : place.Tells seen) (c : Char) : (place.after c).Tells (seen ++ [c]) := by
  obtain ⟨hline, hcolumn, start, hstart, hlength⟩ := h
  unfold Location.after
  by_cases hc : c = '\n'
  · rw [if_pos hc]
    refine ⟨?_, Nat.one_pos, seen.length + 1, ?_, ?_⟩
    · simp [lineStarts_concat, hc, hline]
    · simp [lineStarts_concat, hc]
    · simp
  · rw [if_neg hc]
    refine ⟨?_, Nat.succ_pos _, start, ?_, ?_⟩
    · simp [lineStarts_concat, hc, hline]
    · simp [lineStarts_concat, hc, hstart]
    · show (seen ++ [c]).length = place.column + 1 - 1 + start
      rw [List.length_append, List.length_singleton]
      omega

theorem Tells.foldl (h : place.Tells seen) (rest : List Char) :
    (rest.foldl Location.after place).Tells (seen ++ rest) := by
  induction rest generalizing place seen with
  | nil => simpa using h
  | cons c rest ih =>
      rw [List.foldl_cons, ← List.singleton_append, ← List.append_assoc]
      exact ih (h.after c)

theorem tells_ofOffset (text : List Char) (offset : Nat) :
    (ofOffset text offset).Tells (text.take offset) :=
  tells_first.foldl (text.take offset)

/-- The start of the last line of what has been read is found in the whole text by its number. -/
theorem Tells.lineStart_eq (h : place.Tells seen) (rest : List Char) :
    ∃ start, (lineStarts (seen ++ rest))[place.line - 1]? = some start ∧
      seen.length = place.column - 1 + start := by
  obtain ⟨hline, -, start, hstart, hlength⟩ := h
  obtain ⟨more, hmore⟩ := lineStarts_append seen rest
  refine ⟨start, ?_, hlength⟩
  rw [hmore, hline, List.getElem?_append_left (by simp [lineStarts]), ← List.getLast?_eq_getElem?,
    hstart]

/-! ## The coding -/

/-- How the locations of a text code its offsets. Lines and columns count from one. -/
structure Codes (text : List Char) : Prop where
  before : ∀ offset stop, offset < stop → stop ≤ text.length →
    (ofOffset text offset).Before (ofOffset text stop)
  counted : ∀ offset, 0 < (ofOffset text offset).line ∧ 0 < (ofOffset text offset).column
  offset_eq : ∀ offset ≤ text.length, ∃ start,
    (lineStarts text)[(ofOffset text offset).line - 1]? = some start ∧
      offset = (ofOffset text offset).column - 1 + start
  injective : ∀ offset ≤ text.length, ∀ other ≤ text.length,
    ofOffset text offset = ofOffset text other → offset = other
  past_end : ∀ offset, text.length ≤ offset → ofOffset text offset = ofOffset text text.length

/-- The locations of every text code its offsets. They go strictly on with the offsets; each is as
many columns behind the start of its line as its offset is, so no two offsets share one; and what
lies past the end is located at the end. -/
theorem ofOffset_codes (text : List Char) : Codes text where
  before _ _ h hstop := before_ofOffset h hstop
  counted offset := by
    have htells := tells_ofOffset text offset
    refine ⟨?_, htells.column_pos⟩
    rw [htells.line_eq]
    exact Nat.succ_pos _
  offset_eq offset hoffset := by
    have htells := (tells_ofOffset text offset).lineStart_eq (text.drop offset)
    rwa [List.take_append_drop, List.length_take, Nat.min_eq_left hoffset] at htells
  injective offset hoffset other hother hsame := by
    rcases Nat.lt_trichotomy offset other with hlt | heq | hgt
    · exact absurd hsame (before_ofOffset hlt hother).ne
    · exact heq
    · exact absurd hsame.symm (before_ofOffset hgt hoffset).ne
  past_end offset hoffset := by
    unfold ofOffset
    rw [List.take_of_length_le hoffset, List.take_length]

/-- A line feed stands on the line that it ends, and what is behind it starts a line. -/
example : (List.range 5).map (ofOffset ['a', '\n', '\n']) =
    [⟨1, 1⟩, ⟨1, 2⟩, ⟨2, 1⟩, ⟨3, 1⟩, ⟨3, 1⟩] := by decide

end Location

end Scriptlet
