/-
**Cursors stay in their text.**

A cursor of the script's grammar carries the characters that are left and the byte offsets of the
next token and of the end of the last one.  This module ties the three together: the offsets are
boundaries of the text, the characters left are those behind the first offset, and moving past a
token only goes on.

Main definitions:

* `ReactiveTemplate.Text.RestAt` — the characters of a text behind a byte offset;
* `ReactiveTemplate.Script.Cursor.In` — a cursor whose fields belong to a text;
* `ReactiveTemplate.Script.Cursor.Onward` — a cursor of the text that is further on.

Main results:

* `ReactiveTemplate.Script.skipFrom_restAt` — spaces and comments are skipped forward;
* `ReactiveTemplate.Script.Token.length_ne_zero` — a token has at least one character;
* `ReactiveTemplate.Script.Cursor.In.take`, `ReactiveTemplate.Script.Cursor.pos_lt_stop_take` — moving
  past characters goes on in the text, and past at least one byte if a character is left.
-/

import ReactiveTemplate.Proofs.Extents.Placed
import ReactiveTemplate.Script.Grammar

set_option relaxedAutoImplicit false
set_option autoImplicit false

namespace ReactiveTemplate

/-! ### What is left of a text -/

/-- The characters of a text behind a byte offset. -/
def Text.RestAt (text : List Char) (pos : Nat) (rest : List Char) : Prop :=
  ∃ before, text = before ++ rest ∧ Text.byteLength before = pos

namespace Text.RestAt

variable {text rest : List Char} {pos : Nat}

theorem boundary (h : RestAt text pos rest) : Boundary text pos := by
  obtain ⟨before, rfl, hb⟩ := h
  exact ⟨before, rest, rfl, hb⟩

/-- Behind some of the characters that are left are the others. -/
theorem append {cs : List Char} (h : RestAt text pos (cs ++ rest)) :
    RestAt text (pos + byteLength cs) rest := by
  obtain ⟨before, rfl, rfl⟩ := h
  exact ⟨before ++ cs, by simp, by simp⟩

theorem cons {c : Char} (h : RestAt text pos (c :: rest)) : RestAt text (pos + c.utf8Size) rest := by
  have h' : RestAt text pos ([c] ++ rest) := h
  simpa using h'.append

/-- Behind the first `n` characters that are left are the others. -/
theorem drop (h : RestAt text pos rest) (n : Nat) :
    RestAt text (pos + byteLength (rest.take n)) (rest.drop n) := by
  refine append ?_
  rwa [List.take_append_drop]

end Text.RestAt

theorem Text.byteLength_pos {cs : List Char} (h : cs ≠ []) : 0 < Text.byteLength cs := by
  cases cs with
  | nil => exact absurd rfl h
  | cons c cs =>
      have := c.utf8Size_pos
      rw [Text.byteLength_cons]
      omega

namespace Script

variable {text : List Char}

/-! ### Spaces and comments -/

/-- Skipping goes on from a place of the text to a later one.  A block comment that is never closed is
taken up again where it opens, so that place must not be before the bound either. -/
theorem skipTrivia_restAt (bound : Nat) (mode : Trivia) (cs : List Char) (pos : Nat) (newline : Bool)
    (behind : List (List Char)) (h : Text.RestAt text pos cs) (hpos : bound ≤ pos)
    (hopened : ∀ opened, mode = .blockComment opened →
      Text.RestAt text opened.pos opened.rest ∧ bound ≤ opened.pos) :
    Text.RestAt text (skipTrivia mode cs pos newline behind).pos
        (skipTrivia mode cs pos newline behind).rest ∧
      bound ≤ (skipTrivia mode cs pos newline behind).pos := by
  -- one case for each way in which a space, comment or other character is met
  fun_induction skipTrivia mode cs pos newline behind with
  | case1 cs pos newline behind ih => exact ih h.cons.cons (by omega) (by simp)
  | case2 cs pos newline behind ih =>
      exact ih h.cons.cons (by omega) (by rintro opened ⟨⟩; exact ⟨h, hpos⟩)
  | case3 c cs pos newline behind _ _ _ ih => exact ih h.cons (by omega) (by simp)
  | case4 c cs pos newline behind _ _ _ => exact ⟨h, hpos⟩
  | case5 pos newline behind => exact ⟨h, hpos⟩
  | case6 c cs pos newline behind _ ih => exact ih h.cons (by omega) (by simp)
  | case7 c cs pos newline behind _ ih => exact ih h.cons (by omega) (by simp)
  | case8 pos newline behind => exact ⟨h, hpos⟩
  | case9 opened cs pos newline behind ih => exact ih h.cons.cons (by omega) (by simp)
  | case10 opened c cs pos newline behind _ ih =>
      exact ih h.cons (by omega) (by rintro opened' ⟨⟩; exact hopened opened rfl)
  | case11 opened pos newline behind => exact hopened opened rfl

/-- Spaces and comments are skipped forward. -/
theorem skipFrom_restAt {cs : List Char} {pos : Nat} (h : Text.RestAt text pos cs) :
    Text.RestAt text (skipFrom cs pos).pos (skipFrom cs pos).rest ∧ pos ≤ (skipFrom cs pos).pos :=
  skipTrivia_restAt pos .spaces cs pos false [] h (Nat.le_refl _) (by simp)

/-! ### Tokens -/

theorem punctuator?_ne_zero {cs : List Char} {p : String × Nat} (h : punctuator? cs = some p) :
    p.2 ≠ 0 := by
  unfold punctuator? at h
  split at h
  · split at h <;> cases h <;> decide
  · obtain ⟨q, hq, rfl⟩ := Option.map_eq_some_iff.1 h
    have hall : ∀ q ∈ punctuators, q.2.length ≠ 0 := by decide
    exact hall q (List.mem_of_find?_eq_some hq)

/-- A text that is not over starts with a token of at least one character. -/
theorem Token.length_ne_zero {cs : List Char} (h : cs ≠ []) : (Token.ofChars cs).2 ≠ 0 := by
  unfold Token.ofChars
  split
  · exact absurd rfl h
  · -- one case for each class of tokens, in the order in which they are tried
    dsimp only
    split
    · assumption
    · split
      · assumption
      · split
        · exact Nat.one_ne_zero
        · split
          · exact Nat.one_ne_zero
          · split
            · split
              · exact Nat.succ_ne_zero _
              · exact Nat.one_ne_zero
            · split
              · next hp => exact punctuator?_ne_zero hp
              · exact Nat.one_ne_zero

theorem Token.ne_nil {cs : List Char} (h : (Token.ofChars cs).1 ≠ .finish) : cs ≠ [] := by
  rintro rfl
  exact h rfl

theorem Token.ne_nil_of_beq {cs : List Char} {token : Token}
    (h : ((Token.ofChars cs).1 == token) = true) (hne : token ≠ .finish) : cs ≠ [] := by
  rw [← eq_of_beq h] at hne
  exact Token.ne_nil hne

/-! ### Cursors -/

/-- A cursor whose fields belong to a text: the characters left are those behind the next token's
offset, and the last token ended before it. -/
structure Cursor.In (text : List Char) (c : Cursor) : Prop where
  restAt : Text.RestAt text c.pos c.rest
  stop_le_pos : c.stop ≤ c.pos
  boundary_stop : Text.Boundary text c.stop

/-- A cursor of the text that is not before another one. -/
structure Cursor.Onward (text : List Char) (c c' : Cursor) : Prop where
  mem : c'.In text
  pos_le : c.pos ≤ c'.pos
  stop_le : c.stop ≤ c'.stop

theorem Cursor.In.boundary_pos {c : Cursor} (h : c.In text) : Text.Boundary text c.pos :=
  h.restAt.boundary

theorem Cursor.In.refl {c : Cursor} (h : c.In text) : c.Onward text c :=
  ⟨h, Nat.le_refl _, Nat.le_refl _⟩

theorem Cursor.Onward.trans {c c' c'' : Cursor} (h : c.Onward text c') (h' : c'.Onward text c'') :
    c.Onward text c'' :=
  ⟨h'.mem, Nat.le_trans h.pos_le h'.pos_le, Nat.le_trans h.stop_le h'.stop_le⟩

/-- The first cursor of a text. -/
theorem Cursor.In.ofText (text : List Char) : (Cursor.ofText text).In text := by
  have hall : Text.RestAt text 0 text := ⟨[], rfl, rfl⟩
  exact ⟨(skipFrom_restAt hall).1, (skipFrom_restAt hall).2, hall.boundary⟩

namespace Cursor.In

variable {c : Cursor}

/-- Moving past characters, with nothing skipped behind them. -/
theorem takeRaw (h : c.In text) (n : Nat) : c.Onward text (c.takeRaw n) := by
  have hrest := h.restAt.drop n
  have hpos : c.pos ≤ (c.takeRaw n).pos := Nat.le_add_right _ _
  exact ⟨⟨hrest, Nat.le_refl _, hrest.boundary⟩, hpos, Nat.le_trans h.stop_le_pos hpos⟩

/-- Skipping to the next token. -/
theorem settle (h : c.In text) : c.Onward text c.settle := by
  have hskip := skipFrom_restAt h.restAt
  exact ⟨⟨hskip.1, Nat.le_trans h.stop_le_pos hskip.2, h.boundary_stop⟩, hskip.2, Nat.le_refl _⟩

/-- Moving past a token and on to the next one. -/
theorem take (h : c.In text) (n : Nat) : c.Onward text (c.take n) :=
  (h.takeRaw n).trans (h.takeRaw n).mem.settle

end Cursor.In

/-- Moving past characters moves past a byte, if there is a character left. -/
theorem Cursor.pos_lt_stop_takeRaw {c : Cursor} {n : Nat} (hn : n ≠ 0) (hrest : c.rest ≠ []) :
    c.pos < (c.takeRaw n).stop := by
  have hne : c.rest.take n ≠ [] := by simp [hn, hrest]
  have := Text.byteLength_pos hne
  simp only [Cursor.takeRaw]
  omega

theorem Cursor.pos_lt_stop_take {c : Cursor} {n : Nat} (hn : n ≠ 0) (hrest : c.rest ≠ []) :
    c.pos < (c.take n).stop :=
  Cursor.pos_lt_stop_takeRaw hn hrest

end Script

end ReactiveTemplate
