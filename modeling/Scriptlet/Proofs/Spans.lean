import Scriptlet.Proofs.Places

/-!
# Spans of tokens

The tokens of a text stand one behind the other, and none is empty. A span is on some tokens when it
starts where one of them starts and stops where one stops. So spans on the parts of a list of tokens
follow one another, and lie within the span that covers the list.
-/

namespace Scriptlet

/-! ## Tokens in order -/

/-- Tokens that stand one behind the other, none of them empty. -/
structure Ordered (tokens : List Token) : Prop where
  nonempty : ∀ token ∈ tokens, token.span.offset < token.span.stop
  inOrder : tokens.Pairwise fun first second => first.span.stop ≤ second.span.offset

namespace Ordered

variable {tokens before after : List Token} {token : Token}

theorem left (h : Ordered (before ++ after)) : Ordered before :=
  ⟨fun token hmem => h.nonempty token (List.mem_append_left _ hmem),
    (List.pairwise_append.1 h.inOrder).1⟩

theorem right (h : Ordered (before ++ after)) : Ordered after :=
  ⟨fun token hmem => h.nonempty token (List.mem_append_right _ hmem),
    (List.pairwise_append.1 h.inOrder).2.1⟩

theorem tail (h : Ordered (token :: tokens)) : Ordered tokens :=
  right (show Ordered ([token] ++ tokens) from h)

/-- What stands in the first part stops before what stands in the second starts. -/
theorem stop_le (h : Ordered (before ++ after)) {first second : Token} (hfirst : first ∈ before)
    (hsecond : second ∈ after) : first.span.stop ≤ second.span.offset :=
  (List.pairwise_append.1 h.inOrder).2.2 first hfirst second hsecond

/-- No token starts before the first one. -/
theorem startOf_le (h : Ordered tokens) (hmem : token ∈ tokens) :
    startOf tokens ≤ token.span.offset := by
  cases tokens with
  | nil => exact absurd hmem List.not_mem_nil
  | cons first rest =>
      rcases List.mem_cons.1 hmem with rfl | hrest
      · exact Nat.le_refl _
      · have hfirst := h.nonempty first List.mem_cons_self
        exact Nat.le_trans (Nat.le_of_lt hfirst) (List.rel_of_pairwise_cons h.inOrder hrest)

/-- No token stops behind the last one. -/
theorem le_stopOf (h : Ordered tokens) (hmem : token ∈ tokens) :
    token.span.stop ≤ stopOf tokens := by
  obtain ⟨initial, last, rfl⟩ := List.eq_nil_or_concat tokens |>.resolve_left
    (List.ne_nil_of_mem hmem)
  rw [List.concat_eq_append] at h hmem ⊢
  rw [stopOf_append_cons, stopOf_singleton]
  rcases List.mem_append.1 hmem with hinitial | hlast
  · have hbefore := h.stop_le hinitial (List.mem_singleton.2 rfl)
    have hnonempty := h.nonempty last (List.mem_append_right _ (List.mem_singleton.2 rfl))
    omega
  · rw [List.mem_singleton.1 hlast]

theorem startOf_lt_stopOf (h : Ordered tokens) (hne : tokens ≠ []) :
    startOf tokens < stopOf tokens := by
  obtain ⟨first, hfirst⟩ := List.exists_mem_of_ne_nil tokens hne
  have hstart := h.startOf_le hfirst
  have hend := h.le_stopOf hfirst
  have hnonempty := h.nonempty first hfirst
  omega

/-- The span that covers some tokens stops where they stop. -/
theorem stop_cover (h : Ordered tokens) (hne : tokens ≠ []) : (cover tokens).stop = stopOf tokens :=
  Span.stop_between (Nat.le_of_lt (h.startOf_lt_stopOf hne))

end Ordered

/-- Where tokens stop is decided by the last part of them. -/
theorem stopOf_append (before : List Token) {after : List Token} (h : after ≠ []) :
    stopOf (before ++ after) = stopOf after := by
  cases after with
  | nil => exact absurd rfl h
  | cons token after => exact stopOf_append_cons before token after

@[simp] theorem cover_singleton (token : Token) : cover [token] = token.span := by
  obtain ⟨kind, text, offset, length⟩ := token
  simp [cover, Span.between, Span.stop]

/-- The span from the first to the last part of some tokens covers them all. -/
theorem cover_append {before after : List Token} (hbefore : before ≠ []) (hafter : after ≠ []) :
    cover (before ++ after) = .between (startOf before) (stopOf after) := by
  rw [cover, startOf_append after hbefore, stopOf_append before hafter]

/-- A token holds text. -/
theorem Place.Next.nonempty {here : Place} {token : Token} (h : here.Next token) :
    token.span.offset < token.span.stop := by
  unfold Place.Next Cursor.peek at h
  split at h
  · next lexeme hscan =>
    cases h
    exact Nat.lt_add_of_pos_right (Lexeme.length_pos_of_scan hscan)
  · cases h
  · cases h

/-- What is read from a place stands in order behind it. -/
theorem Reads.ordered {here there : Place} {tokens : List Token} (h : Reads here tokens there) :
    Ordered tokens ∧ ∀ token ∈ tokens, here.cursor.offset ≤ token.span.offset := by
  induction h with
  | nil => exact ⟨⟨by simp, .nil⟩, by simp⟩
  | @cons here token tokens there hnext _ ih =>
      obtain ⟨hordered, hbehind⟩ := ih
      have hoffset := hnext.offset_eq
      have hnonempty := hnext.nonempty
      have hpast : ∀ second ∈ tokens, token.span.stop ≤ second.span.offset :=
        fun second hmem => Nat.le_trans (Nat.le_add_right _ _) (hbehind second hmem)
      refine ⟨⟨List.forall_mem_cons.2 ⟨hnonempty, hordered.nonempty⟩, .cons hpast hordered.inOrder⟩,
        List.forall_mem_cons.2 ⟨Nat.le_of_eq hoffset.symm, fun second hmem => ?_⟩⟩
      have hsecond := hpast second hmem
      omega

/-- What is read stops before the place that it leads to. -/
theorem Reads.stop_le {here there : Place} {tokens : List Token} (h : Reads here tokens there) :
    ∀ token ∈ tokens, token.span.stop ≤ there.cursor.offset := by
  induction h with
  | nil => exact fun _ hmem => nomatch hmem
  | cons _ hrest ih =>
      exact List.forall_mem_cons.2 ⟨Nat.le_trans (Nat.le_add_right _ _) hrest.offset_le, ih⟩

/-! ## Spans of tokens -/

/-- One span lies within another. -/
structure Span.Within (span outer : Span) : Prop where
  offset : outer.offset ≤ span.offset
  stop : span.stop ≤ outer.stop

theorem Span.Within.trans {span middle outer : Span} (h : span.Within middle)
    (houter : middle.Within outer) : span.Within outer :=
  ⟨Nat.le_trans houter.offset h.offset, Nat.le_trans h.stop houter.stop⟩

/-- A span starts where a token starts, stops where a token stops, and holds text. -/
structure Span.On (span : Span) (tokens : List Token) : Prop where
  starts : ∃ first ∈ tokens, span.offset = first.span.offset
  stops : ∃ last ∈ tokens, span.stop = last.span.stop
  nonempty : span.offset < span.stop

namespace Span.On

variable {span other : Span} {tokens more before after : List Token}

theorem mono (h : span.On tokens) (hsub : tokens ⊆ more) : span.On more := by
  obtain ⟨⟨first, hfirst, hoffset⟩, ⟨last, hlast, hstop⟩, hnonempty⟩ := h
  exact ⟨⟨first, hsub hfirst, hoffset⟩, ⟨last, hsub hlast, hstop⟩, hnonempty⟩

/-- A span on some tokens lies within the span from the first of them to the last. -/
theorem within_cover (h : span.On tokens) (hordered : Ordered tokens) :
    span.Within (cover tokens) := by
  obtain ⟨⟨first, hfirst, hoffset⟩, ⟨last, hlast, hstop⟩, hnonempty⟩ := h
  have hstart := hordered.startOf_le hfirst
  have hend := hordered.le_stopOf hlast
  refine ⟨by rw [hoffset]; exact hstart, ?_⟩
  have hle : startOf tokens ≤ stopOf tokens := by omega
  rw [cover, Span.stop_between hle, hstop]
  exact hend

/-- Some tokens are covered from the first of them to the last. -/
theorem cover (hordered : Ordered tokens) (hne : tokens ≠ []) : (cover tokens).On tokens := by
  have hstop := hordered.stop_cover hne
  refine ⟨⟨tokens.head hne, List.head_mem hne, ?_⟩, ⟨tokens.getLast hne, List.getLast_mem hne, ?_⟩,
    ?_⟩
  · show startOf tokens = _
    rw [startOf, List.head?_eq_some_head hne]
    rfl
  · rw [hstop, stopOf, List.getLast?_eq_some_getLast hne]
    rfl
  · rw [hstop]
    exact hordered.startOf_lt_stopOf hne

/-- Spans on the parts of some tokens follow one another. -/
theorem stop_le (h : span.On before) (hother : other.On after)
    (hordered : Ordered (before ++ after)) : span.stop ≤ other.offset := by
  obtain ⟨last, hlast, hstop⟩ := h.stops
  obtain ⟨first, hfirst, hoffset⟩ := hother.starts
  rw [hstop, hoffset]
  exact hordered.stop_le hlast hfirst

end Span.On

end Scriptlet
