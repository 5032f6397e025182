/-!
# Spans

A span is a half-open stretch of a text, counted in characters. Every token and every node of a
tree carries one. `Span.between` is how the parser makes them: from where a construct starts to
where the last token taken for it stops.
-/

namespace Scriptlet

/-- The characters from `offset` up to, and without, `offset + length`. -/
structure Span where
  offset : Nat
  length : Nat
deriving DecidableEq, Repr, Inhabited

namespace Span

/-- The first offset after the span. -/
def stop (span : Span) : Nat :=
  span.offset + span.length

/-- The span from `start` to `stop`, empty when `stop` does not lie after `start`. -/
def between (start stop : Nat) : Span :=
  ⟨start, stop - start⟩

@[simp] theorem offset_between (start stop : Nat) : (between start stop).offset = start := rfl

theorem stop_between {start stop : Nat} (h : start ≤ stop) :
    (between start stop).stop = stop := by
  simp only [between, Span.stop]
  omega

end Span

end Scriptlet
