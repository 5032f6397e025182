import Scriptlet.Proofs.Appending

/-!
# Texts made of pieces

A piece is a spelling that stands before the end of its line, whatever follows on the next one. So a
text with a piece a line is read piece by piece, each as a token of its kind and its spelling.
-/

namespace Scriptlet

open Spelling Text

/-- A spelling of a kind of token that stands before the end of a line. -/
structure Piece where
  kind : Kind
  spelling : List Char
  stands : ∀ rest, (Lexeme.spelled kind spelling).Stands spelling ('\n' :: rest)
  visible : ∀ c ∈ spelling, isBlank c = false

namespace Piece

/-- A punctuation character. -/
def mark (c : Char) (kind : Kind) (h : punctuationKind? c = some kind) : Piece where
  kind := kind
  spelling := [c]
  stands _ := .punctuation h
  visible d hd := by
    obtain rfl : d = c := by simpa using hd
    exact isBlank_eq_false (.inr (.inr (by rw [h]; rfl)))

/-- A run of operator characters. -/
def operator (run : List Char) (kind : Kind) (hne : run ≠ [])
    (hchars : run.all isOperatorChar = true) (h : operatorKind? (String.ofList run) = some kind) :
    Piece where
  kind := kind
  spelling := run
  stands _ :=
    .operator hne ⟨List.all_eq_true.1 hchars, fun c hc => by cases Option.some.inj hc; rfl⟩ h
  visible c hc := isBlank_eq_false (.inr (.inl (List.all_eq_true.1 hchars c hc)))

/-- The word `a`. -/
def name : Piece where
  kind := .word
  spelling := ['a']
  stands _ := .word (by decide) ⟨by simp, fun c hc => by cases Option.some.inj hc; decide⟩
  visible := List.forall_mem_singleton.2 rfl

def openRound : Piece := mark '(' .openRound rfl
def closeRound : Piece := mark ')' .closeRound rfl
def closeSquare : Piece := mark ']' .closeSquare rfl
def openCurly : Piece := mark '\x7b' .openCurly rfl
def closeCurly : Piece := mark '\x7d' .closeCurly rfl
def semicolon : Piece := mark ';' .semicolon rfl
def colon : Piece := operator [':'] .colon (List.cons_ne_nil _ _) rfl rfl
def assign : Piece := operator ['='] .assign (List.cons_ne_nil _ _) rfl rfl
def arrow : Piece := operator ['=', '>'] .arrow (List.cons_ne_nil _ _) rfl rfl

/-- The text of some pieces, with a line for each. -/
def text (pieces : List Piece) : List Char :=
  pieces.flatMap fun piece => piece.spelling ++ ['\n']

@[simp] theorem text_nil : text [] = [] := rfl

@[simp] theorem text_cons (piece : Piece) (pieces : List Piece) :
    text (piece :: pieces) = piece.spelling ++ '\n' :: text pieces := by
  simp [text]

@[simp] theorem text_append (pieces more : List Piece) :
    text (pieces ++ more) = text pieces ++ text more :=
  List.flatMap_append

end Piece

/-- A piece starts with a character that is no blank. -/
theorem Piece.skipBlanks_eq (piece : Piece) (offset : Nat) (rest : List Char) :
    Cursor.skipBlanks ⟨offset, piece.spelling ++ rest⟩ = ⟨offset, piece.spelling ++ rest⟩ := by
  have hpos := Lexeme.length_pos_of_scan (piece.stands []).scan_eq
  obtain ⟨c, more, hspelling⟩ := List.exists_cons_of_length_pos hpos
  have hvisible : isBlank c = false := piece.visible c (by simp [hspelling])
  simp [Cursor.skipBlanks, leadingBlanks, dropBlanks, hspelling, hvisible]

/-- The tokens have the kinds and the spellings of the pieces. -/
def Spelled (pieces : List Piece) (tokens : List Token) : Prop :=
  List.Forall₂ (fun piece token =>
    token.kind = piece.kind ∧ token.text = String.ofList piece.spelling) pieces tokens

/-- Tokens that some pieces spell are those of the first pieces and those of the others. -/
theorem Spelled.of_append {pieces more : List Piece} {tokens : List Token}
    (h : Spelled (pieces ++ more) tokens) :
    ∃ before after, tokens = before ++ after ∧ Spelled pieces before ∧ Spelled more after := by
  induction pieces generalizing tokens with
  | nil => exact ⟨[], tokens, rfl, .nil, h⟩
  | cons piece pieces ih =>
      cases h with
      | cons htoken hrest =>
          obtain ⟨before, after, rfl, hbefore, hafter⟩ := ih hrest
          exact ⟨_ :: before, after, rfl, .cons htoken hbefore, hafter⟩

/-- Where the text of some pieces starts, their tokens are read to its end. -/
theorem Piece.exists_reads (pieces : List Piece) (offset stop : Nat) :
    ∃ tokens there, Reads ⟨Cursor.skipBlanks ⟨offset, Piece.text pieces⟩, stop⟩ tokens there ∧
      there.Ended ∧ Spelled pieces tokens := by
  induction pieces generalizing offset stop with
  | nil => exact ⟨[], _, .nil _, Place.ended_iff.2 rfl, .nil⟩
  | cons piece pieces ih =>
      rw [Piece.text_cons, piece.skipBlanks_eq]
      let here : Place := ⟨⟨offset, piece.spelling ++ '\n' :: Piece.text pieces⟩, stop⟩
      have hrest : here.cursor.rest = piece.spelling ++ '\n' :: Piece.text pieces := rfl
      have hnext := Place.next_of_stands hrest (piece.stands (Piece.text pieces))
      have hpast := Place.past_eq hrest piece.kind (String.ofList piece.spelling)
      have hblank : dropBlanks ['\n'] = [] := by decide
      have hline := skipBlanks_append_of_blank hblank (offset + piece.spelling.length)
        (Piece.text pieces)
      rw [List.singleton_append] at hline
      obtain ⟨tokens, there, hreads, hended, hspelled⟩ :=
        ih (offset + piece.spelling.length + 1) (offset + piece.spelling.length)
      refine ⟨_ :: tokens, there, .cons hnext ?_, hended, .cons ⟨rfl, rfl⟩ hspelled⟩
      show Reads (Place.past _ ⟨piece.kind, String.ofList piece.spelling, _⟩) tokens there
      rw [hpast, hline]
      exact hreads

/-- The text of some pieces has the tokens that they spell. -/
theorem Piece.exists_reads_start (pieces : List Piece) :
    ∃ tokens there, Reads (.start (Piece.text pieces)) tokens there ∧ there.Ended ∧
      Spelled pieces tokens := by
  have hstart : Place.start (Piece.text pieces) =
      ⟨Cursor.skipBlanks ⟨0, Piece.text pieces⟩, 0⟩ := rfl
  rw [hstart]
  exact Piece.exists_reads pieces 0 0

theorem Spelled.kind_of_replicate {piece : Piece} {count : Nat} {tokens : List Token}
    (h : Spelled (List.replicate count piece) tokens) :
    ∀ token ∈ tokens, token.kind = piece.kind := by
  induction count generalizing tokens with
  | zero =>
      cases h
      simp
  | succ count ih =>
      rcases h with _ | ⟨htoken, hrest⟩
      exact List.forall_mem_cons.2 ⟨htoken.1, ih hrest⟩

end Scriptlet
