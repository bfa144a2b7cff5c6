/-
**An expression ends at the first closing brace that works.**

Each closing brace is tried in turn, and the first one that makes the text before it one expression ends the
expression.  A text in which nothing but blanks stands before the first brace is refused without a trial.  The
markup and the script disagree on what is blank: the next-line character `U+0085` is a blank of the markup and
a letter of the script, and the four separators `U+001C`–`U+001F` are blanks of the markup and nothing in the
script.  So a trial would have accepted a text before the first brace that is one name of next-line characters,
with spaces of the script around it, and nothing else.

Main definitions:

* `ReactiveTemplate.Script.EndsAt` — a closing brace that makes the text before it one expression;
* `ReactiveTemplate.Script.BlankAhead` — a place where nothing but blanks stands before the first brace;
* `ReactiveTemplate.Script.NextLineName` — one name of next-line characters, with spaces around it.

Main results:

* `ReactiveTemplate.Script.searchEnd?_eq_some_iff` — the search finds the first brace that works;
* `ReactiveTemplate.Script.assignmentRule_name` — a name before a token that ends values is an expression;
* `ReactiveTemplate.Script.exists_endsAt_blank_iff` — the braces that work behind blanks;
* `ReactiveTemplate.Script.parseEmbedded_ends_at_first` — **the first brace that works ends the expression, but
  for a name of next-line characters**.
-/

import ReactiveTemplate.Proofs.Embedding.Groups
import ReactiveTemplate.Proofs.Markup.Grammar
import ReactiveTemplate.Proofs.Segments

set_option relaxedAutoImplicit false
set_option autoImplicit false

namespace ReactiveTemplate.Script

open Node

variable {g : Grammar} {place : Place} {c : Cursor} {x : Char} {cs s t : List Char} {pos : Nat}

/-! ### Spaces, separators and next-line characters -/

/-- The blanks of the markup that are no spaces of the script. -/
theorem isSpace_or_of_isBlank (h : Text.isBlank x = true) :
    isSpace x = true ∨ (x = '\u001c' ∨ x = '\u001d' ∨ x = '\u001e' ∨ x = '\u001f') ∨ x = '\u0085' := by
  have hchar {y : Char} (heq : x.toNat = y.toNat) : x = y := Char.ext (UInt32.toNat_inj.1 heq)
  simp only [Text.isBlank, Bool.or_eq_true, Bool.and_eq_true, decide_eq_true_eq, beq_iff_eq] at h
  by_cases hspace : isSpace x = true
  · exact .inl hspace
  · simp only [isSpace, Bool.or_eq_true, Bool.and_eq_true, decide_eq_true_eq, beq_iff_eq] at hspace
    have hcode : x.toNat = 0x1c ∨ x.toNat = 0x1d ∨ x.toNat = 0x1e ∨ x.toNat = 0x1f ∨ x.toNat = 0x85 := by omega
    rcases hcode with h | h | h | h | h
    · exact .inr (.inl (.inl (hchar h)))
    · exact .inr (.inl (.inr (.inl (hchar h))))
    · exact .inr (.inl (.inr (.inr (.inl (hchar h)))))
    · exact .inr (.inl (.inr (.inr (.inr (hchar h)))))
    · exact .inr (.inr (hchar h))

theorem isNamePart_of_isSpace (h : isSpace x = true) : isNamePart x = false := by
  have hle {y z : Char} : y ≤ z ↔ y.toNat ≤ z.toNat := Iff.rfl
  simp only [isNamePart, isNameStart, h, isDecimal, Bool.not_true, Bool.and_false, Bool.false_and, Bool.or_false,
    Bool.or_eq_false_iff, Bool.and_eq_false_iff, decide_eq_false_iff_not, hle, beq_eq_false_iff_ne]
  simp only [isSpace, Bool.or_eq_true, Bool.and_eq_true, decide_eq_true_eq, beq_iff_eq] at h
  have hcodes : 'a'.toNat = 97 ∧ 'z'.toNat = 122 ∧ 'A'.toNat = 65 ∧ 'Z'.toNat = 90 ∧ '0'.toNat = 48 ∧
      '9'.toNat = 57 ∧ '$'.toNat = 36 ∧ '_'.toNat = 95 := by decide
  refine ⟨⟨⟨⟨by omega, by omega⟩, ?_⟩, ?_⟩, by omega⟩
  all_goals
    rintro rfl
    omega

theorem skipTrivia_space (h : isSpace x = true) (newline : Bool) (behind : List (List Char)) :
    skipTrivia .spaces (x :: cs) pos newline behind =
      skipTrivia .spaces cs (pos + x.utf8Size) (newline || isLineEnd x) behind := by
  rw [skipTrivia.eq_def]
  split
  · next heq => exact absurd ((List.cons.inj heq).1 ▸ h) (by decide)
  · next heq => exact absurd ((List.cons.inj heq).1 ▸ h) (by decide)
  · next heq =>
      obtain ⟨rfl, rfl⟩ := List.cons.inj heq
      rw [if_pos h]
  all_goals simp_all

/-- Spaces are skipped up to a character that is none and opens no comment. -/
theorem rest_skipTrivia (hs : ∀ y ∈ s, isSpace y = true) (ht : ∀ y ∈ t.head?, isSpace y = false ∧ y ≠ '/')
    (newline : Bool) (behind : List (List Char)) :
    (skipTrivia .spaces (s ++ t) pos newline behind).rest = t := by
  induction s generalizing pos newline with
  | nil =>
      cases t with
      | nil => rfl
      | cons y t =>
          obtain ⟨hspace, hslash⟩ := ht y rfl
          rw [List.nil_append, skipTrivia.eq_def]
          split
          · next heq => exact absurd (List.cons.inj heq).1 hslash
          · next heq => exact absurd (List.cons.inj heq).1 hslash
          · next heq =>
              obtain ⟨rfl, rfl⟩ := List.cons.inj heq
              rw [hspace]
              rfl
          all_goals simp_all
  | cons y s ih =>
      rw [List.cons_append, skipTrivia_space (hs y List.mem_cons_self)]
      exact ih (fun z hz => hs z (List.mem_cons_of_mem _ hz)) _

/-- Behind a token and the spaces after it, the next one starts. -/
theorem rest_take {n : Nat} (h : c.rest.drop n = s ++ t) (hs : ∀ y ∈ s, isSpace y = true)
    (ht : ∀ y ∈ t.head?, isSpace y = false ∧ y ≠ '/') : (c.take n).rest = t := by
  change (skipFrom (c.rest.drop n) _).rest = t
  rw [h]
  exact rest_skipTrivia hs ht _ _

/-! ### Tokens -/

/-- No token starts with a separator. -/
theorem Token.ofChars_separator (h : x = '\u001c' ∨ x = '\u001d' ∨ x = '\u001e' ∨ x = '\u001f') (cs : List Char) :
    Token.ofChars (x :: cs) = (.stray, 1) := by
  have hp : punctuator? (x :: cs) = none := by
    unfold punctuator?
    split
    · next heq =>
        obtain ⟨rfl, -⟩ := List.cons.inj heq
        exact absurd h (by decide)
    · rcases h with rfl | rfl | rfl | rfl <;> simp [punctuators]
  have hmark : isMark x = true := by rcases h with rfl | rfl | rfl | rfl <;> decide
  rw [Token.ofChars_mark hmark, hp]
  rfl

/-- Next-line characters make a word. -/
theorem Token.ofChars_nextLines (hs : s ≠ []) (hline : ∀ y ∈ s, y = '\u0085')
    (ht : ∀ y ∈ t.head?, isNamePart y = false ∧ y ≠ '\\') :
    Token.ofChars (s ++ t) = (.word (String.ofList s), s.length) := by
  have hpart : wordPartLength 0 (s ++ t) = s.length := by
    clear hs
    induction s with
    | nil =>
        cases t with
        | nil => rfl
        | cons y t =>
            obtain ⟨hname, hslash⟩ := ht y rfl
            have hescape : unicodeEscapeLength (y :: t) = none := by
              unfold unicodeEscapeLength
              split
              · next heq => exact absurd (List.cons.inj heq).1 hslash
              · next heq => exact absurd (List.cons.inj heq).1 hslash
              · rfl
            simp [wordPartLength, hname, hescape]
    | cons y s ih =>
        have hy := hline y List.mem_cons_self
        have hname : isNamePart y = true := by rw [hy]; decide
        rw [List.cons_append, wordPartLength, if_pos hname, ih fun z hz => hline z (List.mem_cons_of_mem _ hz)]
        rfl
  obtain ⟨y, s, rfl⟩ := List.exists_cons_of_ne_nil hs
  have hy := hline y List.mem_cons_self
  have hword : wordLength (y :: s ++ t) = (y :: s).length := by
    rw [← hpart, List.cons_append, wordLength, if_pos (by rw [hy]; decide)]
  unfold Token.ofChars
  rw [List.cons_append] at hword ⊢
  simp only [hword]
  simp

/-! ### Expressions that are a name, and texts that start none -/

/-- Words that can only be names. -/
def isPlainName (w : String) : Bool :=
  !isReserved w && w != "async" && w != "await" && w != "yield" && w != "undefined"

theorem ne_of_isPlainName {w k : String} (h : isPlainName w = true) (hk : isPlainName k = false) : w ≠ k := by
  rintro rfl
  cases h.symm.trans hk

theorem isReserved_of_isPlainName {w : String} (h : isPlainName w = true) : isReserved w = false := by
  simp only [isPlainName, Bool.and_eq_true, Bool.not_eq_true'] at h
  exact h.1.1.1.1

theorem wordValue_name {w : String} (h : isPlainName w = true) : wordValue g w = identifier := by
  unfold wordValue
  split
  all_goals first
    | rfl
    | exact absurd rfl (ne_of_isPlainName h (by decide +kernel))

section Name

variable {w : String} (hw : (Token.ofChars c.rest).1 = .word w) (hname : isPlainName w = true)

include hw hname

/-- A word that can only be a name is a value. -/
theorem newOrPrimary_name : newOrPrimary g place c = some
    (.mk .identifier .plain c.pos (c.take (Token.ofChars c.rest).2).stop 0 [], c.take (Token.ofChars c.rest).2) := by
  have hnew : (Token.word w == .word "new") = false :=
    beq_eq_false_iff_ne.2 fun h => ne_of_isPlainName hname (by decide +kernel) (Token.word.inj h)
  unfold newOrPrimary atWord
  rw [bind_apply, peek_bind, hw, hnew]
  simp only [pure_apply, Option.bind_some, Bool.false_eq_true, if_false]
  unfold primary
  rw [peek_bind, hw]
  simp only [wordValue_name hname]
  unfold identifier nameLeaf
  rw [peek_bind, hw]
  simp only [isReserved_of_isPlainName hname]
  rfl

variable (hnext : (Token.ofChars (c.take (Token.ofChars c.rest).2).rest).1.stopsValue = true)

include hnext

theorem unaryRule_name : unaryRule g place c = some
    (.mk .identifier .plain c.pos (c.take (Token.ofChars c.rest).2).stop 0 [], c.take (Token.ofChars c.rest).2) := by
  have hplain : isPrefixOperator (.word w) = false := by
    simp [isPrefixOperator, ne_of_isPlainName hname (k := "typeof") (by decide +kernel),
      ne_of_isPlainName hname (k := "void") (by decide +kernel),
      ne_of_isPlainName hname (k := "delete") (by decide +kernel)]
  have hawait : (Token.word w == .word "await") = false :=
    beq_eq_false_iff_ne.2 fun h => ne_of_isPlainName hname (by decide +kernel) (Token.word.inj h)
  have hyield : (Token.word w == .word "yield") = false :=
    beq_eq_false_iff_ne.2 fun h => ne_of_isPlainName hname (by decide +kernel) (Token.word.inj h)
  unfold unaryRule
  rw [here_bind, peek_bind, hw]
  simp only [hplain, hawait, hyield, isUpdateOperator, Bool.false_eq_true, if_false]
  rw [bind_apply, newOrPrimary_name hw hname, Option.bind_some, postfixOf_stop hnext]

/-- A name is an expression where a token follows that ends values. -/
theorem assignmentRule_name (lenient : Bool) : assignmentRule g lenient place c = some
    (.mk .identifier .plain c.pos (c.take (Token.ofChars c.rest).2).stop 0 [], c.take (Token.ofChars c.rest).2) := by
  have hasync : (w == "async") = false := beq_eq_false_iff_ne.2 (ne_of_isPlainName hname (by decide +kernel))
  have hyield : (w == "yield") = false := beq_eq_false_iff_ne.2 (ne_of_isPlainName hname (by decide +kernel))
  have harrow : ((Token.ofChars (c.take (Token.ofChars c.rest).2).rest).1 == .punctuator "=>") = false := by
    refine beq_eq_false_iff_ne.2 fun h => ?_
    rw [h] at hnext
    cases hnext
  have hrun : assignmentRule g lenient place c = wordFirst g w place c := by
    unfold assignmentRule
    rw [peek_bind, hw]
  rw [hrun]
  unfold wordFirst
  rw [here_bind, peekSecond_bind, harrow, hasync, hyield]
  simp only [Bool.and_false, Bool.false_and, Bool.false_eq_true, if_false]
  rw [newlineBehindNext_bind, bind_apply, unaryRule_name hw hname hnext, Option.bind_some,
    assignmentFrom_stop hnext]

end Name

/-- No expression starts with a closing brace or with a character that starts no token. -/
theorem assignmentRule_none {lenient : Bool} (h : (Token.ofChars c.rest).1 = .stray ∨
    (Token.ofChars c.rest).1 = .punctuator "\x7d") : assignmentRule g lenient place c = none := by
  have hvalue : newOrPrimary g place c = none := by
    unfold newOrPrimary atWord
    rw [bind_apply, peek_bind]
    rcases h with h | h
    all_goals
      rw [h]
      change primary g place c = none
      unfold primary
      rw [peek_bind, h]
      rfl
  have hoperand : unaryRule g place c = none := by
    unfold unaryRule
    rw [here_bind, peek_bind]
    rcases h with h | h
    all_goals
      rw [h]
      change (newOrPrimary g >>= postfixOf g) place c = none
      rw [bind_apply, hvalue]
      rfl
  unfold assignmentRule
  rw [peek_bind]
  rcases h with h | h
  all_goals
    rw [h]
    change (firstOperand g 1 >>= assignmentFrom g) place c = none
    unfold firstOperand
    rw [bind_apply, peek_bind, h]
    change (unaryRule g place c).bind _ = none
    rw [hoperand]
    rfl

/-! ### Lists of blanks -/

/-- A list does not go on with a closing brace, nor with a character that starts no token. -/
theorem groupRound_none (h : (Token.ofChars c.rest).1 = .stray ∨
    (Token.ofChars c.rest).1 = .punctuator "\x7d") : groupRound g.step place c = none := by
  have hdots : (Token.ofChars c.rest).1 ≠ .punctuator "..." := by
    rcases h with h | h <;> rw [h] <;> decide
  have hpart : spreadOr g.step.cover place c = none := (spreadOr_of_ne hdots).trans (assignmentRule_none h)
  unfold groupRound
  rw [bind_apply, hpart]
  rfl

/-- A name is a part of a list where a parenthesis or comma follows. -/
theorem groupRound_name {w : String} (hw : (Token.ofChars c.rest).1 = .word w) (hname : isPlainName w = true)
    (hnext : (Token.ofChars (c.take (Token.ofChars c.rest).2).rest).1.stopsValue = true)
    (hcomma : (Token.ofChars (c.take (Token.ofChars c.rest).2).rest).1 ≠ .punctuator ",") :
    groupRound g.step place c =
      if (Token.ofChars (c.take (Token.ofChars c.rest).2).rest).1 = .punctuator ")" then
        some ((.mk .identifier .plain c.pos (c.take (Token.ofChars c.rest).2).stop 0 [], false),
          c.take (Token.ofChars c.rest).2)
      else none := by
  have hpart : spreadOr g.step.cover place c = some _ :=
    (spreadOr_of_ne (by rw [hw]; simp)).trans (assignmentRule_name hw hname hnext true)
  unfold groupRound
  rw [bind_apply, hpart, Option.bind_some, atPunctuator_bind]
  split
  · next h =>
      rw [if_pos (eq_of_beq h)]
      rfl
  · next h =>
      rw [if_neg (fun heq => h (by simp [heq]))]
      unfold punctuator
      rw [bind_apply, atPunctuator_bind, beq_eq_false_iff_ne.2 hcomma]
      rfl

/-- A text is one name of next-line characters, with spaces around it. -/
def NextLineName (slice : List Char) : Prop :=
  ∃ front name behind, slice = front ++ (name ++ behind) ∧ (∀ y ∈ front, isSpace y = true) ∧ name ≠ [] ∧
    (∀ y ∈ name, y = '\u0085') ∧ ∀ y ∈ behind, isSpace y = true

theorem isPlainName_nextLines (hs : s ≠ []) (hline : ∀ y ∈ s, y = '\u0085') :
    isPlainName (String.ofList s) = true := by
  obtain ⟨y, s, rfl⟩ := List.exists_cons_of_ne_nil hs
  have hhead : (String.ofList (y :: s)).toList.head? = some '\u0085' := by
    rw [String.toList_ofList, List.head?_cons, hline y List.mem_cons_self]
  generalize String.ofList (y :: s) = w at hhead
  have hletters : ∀ k ∈ "async" :: "await" :: "yield" :: "undefined" :: reservedWords,
      k.toList.head? ≠ some '\u0085' := by decide +kernel
  have hnot : w ∉ "async" :: "await" :: "yield" :: "undefined" :: reservedWords := fun h => hletters w h hhead
  simp only [List.mem_cons, not_or] at hnot
  obtain ⟨hasync, hawait, hyield, hundefined, hreserved⟩ := hnot
  simp [isPlainName, isReserved, hasync, hawait, hyield, hundefined, hreserved]

/-- Blanks are spaces up to a separator, up to a name of next-line characters, or all of them. -/
theorem blanks_cases (hs : ∀ y ∈ s, Text.isBlank y = true) :
    ∃ front, (∀ y ∈ front, isSpace y = true) ∧
      (s = front ∨
      (∃ x behind, s = front ++ x :: behind ∧ (x = '\u001c' ∨ x = '\u001d' ∨ x = '\u001e' ∨ x = '\u001f')) ∨
      ∃ name behind, s = front ++ (name ++ behind) ∧ name ≠ [] ∧ (∀ y ∈ name, y = '\u0085') ∧
        ∀ y ∈ behind.head?, y ≠ '\u0085') := by
  induction s with
  | nil => exact ⟨[], by simp, .inl rfl⟩
  | cons x s ih =>
      rcases isSpace_or_of_isBlank (hs x List.mem_cons_self) with hspace | hseparator | rfl
      · obtain ⟨front, hfront, hcases⟩ := ih fun y hy => hs y (List.mem_cons_of_mem _ hy)
        refine ⟨x :: front, ?_, ?_⟩
        · intro y hy
          rcases List.mem_cons.1 hy with rfl | hy
          · exact hspace
          · exact hfront y hy
        · rcases hcases with rfl | ⟨x', behind, rfl, hx'⟩ | ⟨name, behind, rfl, hname⟩
          · exact .inl rfl
          · exact .inr (.inl ⟨x', behind, rfl, hx'⟩)
          · exact .inr (.inr ⟨name, behind, rfl, hname⟩)
      · exact ⟨[], by simp, .inr (.inl ⟨x, s, rfl, hseparator⟩)⟩
      · refine ⟨[], by simp, .inr (.inr ⟨'\u0085' :: s.takeWhile (· == '\u0085'), s.dropWhile (· == '\u0085'), ?_,
          by simp, ?_, ?_⟩)⟩
        · rw [List.nil_append, List.cons_append, List.takeWhile_append_dropWhile]
        · intro y hy
          rcases List.mem_cons.1 hy with rfl | hy
          · rfl
          · exact eq_of_beq (List.mem_takeWhile_imp (p := (· == '\u0085')) hy)
        · intro y hy
          have := List.head?_dropWhile_not (· == '\u0085') s
          rw [Option.mem_def.1 hy] at this
          simpa using this

/-- The next token behind spaces and what was put behind a text. -/
theorem rest_take_closing {n : Nat} (h : c.rest.drop n = s ++ ['\n', ')']) (hs : ∀ y ∈ s, isSpace y = true) :
    (c.take n).rest = [')'] := by
  refine rest_take (s := s ++ ['\n']) (by simpa using h) ?_ ?_
  · intro y hy
    rcases List.mem_append.1 hy with hy | hy
    · exact hs y hy
    · rw [List.mem_singleton.1 hy]
      decide
  · intro y hy
    cases hy
    decide

/-- What may stand behind the blanks of a text that is tried: what was put behind the text, or a brace. -/
def BlankStop (t : List Char) : Prop :=
  t = ['\n', ')'] ∨ ∃ u, t = '}' :: u

/-- The next token behind blanks: the closing parenthesis, one that starts no expression, or a name. -/
theorem next_of_blanks {n : Nat} (h : c.rest.drop n = s ++ t) (hs : ∀ y ∈ s, Text.isBlank y = true)
    (ht : BlankStop t) :
    ((∀ y ∈ s, isSpace y = true) ∧ t = ['\n', ')'] ∧ (c.take n).rest = [')']) ∨
    ((Token.ofChars (c.take n).rest).1 = .stray ∨ (Token.ofChars (c.take n).rest).1 = .punctuator "\x7d") ∨
    ∃ front name behind, s = front ++ (name ++ behind) ∧ (∀ y ∈ front, isSpace y = true) ∧ name ≠ [] ∧
      (∀ y ∈ name, y = '\u0085') ∧ (c.take n).rest = name ++ (behind ++ t) ∧
      Token.ofChars (c.take n).rest = (.word (String.ofList name), name.length) := by
  obtain ⟨front, hfront, rfl | ⟨x, behind, rfl, hx⟩ | ⟨name, behind, rfl, hne, hname, hbehind⟩⟩ := blanks_cases hs
  · rcases ht with rfl | ⟨u, rfl⟩
    · exact .inl ⟨hfront, rfl, rest_take_closing h hfront⟩
    · have hnext : (c.take n).rest = '}' :: u := rest_take h hfront (by
        intro y hy
        cases hy
        decide)
      rw [hnext, Token.ofChars_brace]
      exact .inr (.inl (.inr rfl))
  · have hnext : (c.take n).rest = x :: (behind ++ t) := rest_take (by simpa using h) hfront (by
      intro y hy
      cases hy
      rcases hx with rfl | rfl | rfl | rfl <;> decide)
    rw [hnext, Token.ofChars_separator hx]
    exact .inr (.inl (.inl rfl))
  · have hnext : (c.take n).rest = name ++ (behind ++ t) := rest_take (by simpa using h) hfront (by
      obtain ⟨y, name, rfl⟩ := List.exists_cons_of_ne_nil hne
      intro z hz
      cases hz
      rw [hname y List.mem_cons_self]
      decide)
    refine .inr (.inr ⟨front, name, behind, rfl, hfront, hne, hname, hnext, ?_⟩)
    rw [hnext]
    refine Token.ofChars_nextLines hne hname fun y hy => ?_
    cases behind with
    | nil => rcases ht with rfl | ⟨u, rfl⟩ <;> cases hy <;> decide
    | cons z behind =>
        cases hy
        have hblank : Text.isBlank y = true := hs y (by simp)
        refine ⟨?_, fun h => absurd (h ▸ hblank) (by decide)⟩
        rcases isSpace_or_of_isBlank hblank with hspace | hseparator | hline
        · exact isNamePart_of_isSpace hspace
        · rcases hseparator with rfl | rfl | rfl | rfl <;> decide
        · exact absurd hline (hbehind y rfl)

/-- Behind the opening parenthesis of a text that is tried. -/
theorem drop_ofText_wrapped {slice : List Char} (h : wrapped slice = '(' :: cs) :
    (Cursor.ofText (wrapped slice)).rest.drop (Token.ofChars (Cursor.ofText (wrapped slice)).rest).2 = cs := by
  rw [ofText_wrapped, h, Token.ofChars_opening]
  rfl

theorem atPunctuator_of_eq {w : String} (h : (Token.ofChars c.rest).1 = .punctuator w) :
    atPunctuator w place c = some (true, c) := by
  change some (_, c) = _
  rw [h, beq_self_eq_true]

theorem atPunctuator_of_ne {w : String} (h : (Token.ofChars c.rest).1 ≠ .punctuator w) :
    atPunctuator w place c = some (false, c) := by
  change some (_, c) = _
  rw [beq_eq_false_iff_ne.2 h]

/-- A list in parentheses of a name of next-line characters. -/
theorem groupParts_nextLineName {slice : List Char} (h : NextLineName slice) :
    ∃ parts d inner,
      groupParts (innerGrammar slice) .statement (.ofText (wrapped slice)) = some (parts, d) ∧
      d.stop = Text.byteLength (wrapped slice) ∧ groupValue? parts = some inner := by
  obtain ⟨front, name, behind, rfl, hfront, hne, hname, hbehind⟩ := h
  have hdrop : (Cursor.ofText (wrapped (front ++ (name ++ behind)))).rest.drop
      (Token.ofChars (Cursor.ofText (wrapped (front ++ (name ++ behind)))).rest).2 =
        front ++ (name ++ (behind ++ ['\n', ')'])) := drop_ofText_wrapped (by simp [wrapped])
  have hin := (Cursor.In.ofText (wrapped (front ++ (name ++ behind)))).take
    (Token.ofChars (Cursor.ofText (wrapped (front ++ (name ++ behind)))).rest).2
  have hrest := rest_take hdrop hfront (by
    obtain ⟨y, name, rfl⟩ := List.exists_cons_of_ne_nil hne
    intro z hz
    cases hz
    rw [hname y List.mem_cons_self]
    decide)
  have hopen := opening_ofText_wrapped (front ++ (name ++ behind))
  generalize hc : (Cursor.ofText (wrapped (front ++ (name ++ behind)))).take
    (Token.ofChars (Cursor.ofText (wrapped (front ++ (name ++ behind)))).rest).2 = c at hin hrest
  have htoken : Token.ofChars c.rest = (.word (String.ofList name), name.length) := by
    rw [hrest]
    refine Token.ofChars_nextLines hne hname fun y hy => ?_
    cases behind with
    | nil => cases hy; decide
    | cons z behind =>
        cases hy
        have hspace := hbehind y List.mem_cons_self
        exact ⟨isNamePart_of_isSpace hspace, fun h => absurd (h ▸ hspace) (by decide)⟩
  have hlast : (c.take (Token.ofChars c.rest).2).rest = [')'] := by
    refine rest_take_closing ?_ hbehind
    rw [htoken, hrest, List.drop_left]
  have hclosing : (Token.ofChars (c.take (Token.ofChars c.rest).2).rest).1 = .punctuator ")" := by
    rw [hlast, Token.ofChars_closing]
  have hround : groupRound (innerGrammar (front ++ (name ++ behind))) .enclosed c = some
      ((.mk .identifier .plain c.pos (c.take (Token.ofChars c.rest).2).stop 0 [], false),
        c.take (Token.ofChars c.rest).2) := by
    refine (groupRound_name (congrArg Prod.fst htoken) (isPlainName_nextLines hne hname) ?_ ?_).trans ?_
    · rw [hclosing]
      rfl
    · rw [hclosing]
      decide
    · rw [if_pos hclosing]
  have hrounds := repeatUntil_once (atPunctuator_of_ne (w := ")") (by rw [htoken]; simp)) hround
    (atPunctuator_of_eq hclosing) (by rw [hrest]; simp [hne])
  refine ⟨_, _, _, groupParts_eq_some_iff.2 ⟨hopen, _, (congrArg _ hc).trans hrounds, hclosing, rfl⟩, ?_, rfl⟩
  -- the parenthesis is all that is left of the text
  obtain ⟨before, htext, hpos⟩ := (hin.mem.take (Token.ofChars c.rest).2).mem.restAt
  rw [hlast] at htext
  rw [htext, hlast, Token.ofChars_closing]
  change (c.take (Token.ofChars c.rest).2).pos + Text.byteLength ((c.take (Token.ofChars c.rest).2).rest.take 1) = _
  rw [hlast, ← hpos, Text.byteLength_append]
  rfl

/-- **The texts behind blanks that make an expression**: only a name of next-line characters does. -/
theorem exists_embedded?_blank_iff {slice : List Char} {offset : Nat}
    (hslice : wrapped slice = '(' :: (s ++ t)) (hs : ∀ y ∈ s, Text.isBlank y = true) (ht : BlankStop t) :
    (∃ e, embedded? slice offset = some e) ↔ t = ['\n', ')'] ∧ NextLineName s := by
  constructor
  · rintro ⟨e, he⟩
    obtain ⟨parts, d, inner, hparts, -, hinner, -⟩ := embedded?_eq_some_iff.1 he
    obtain ⟨-, d', hrounds, -⟩ := groupParts_eq_some_iff.1 hparts
    have hdrop := drop_ofText_wrapped hslice
    obtain ⟨g, hg⟩ : ∃ g, innerGrammar slice = Grammar.step g := ⟨_, rfl⟩
    rw [hg] at hrounds
    rcases next_of_blanks hdrop hs ht with
      ⟨-, -, hclosing⟩ | hnone | ⟨front, name, behind, rfl, hfront, hne, hname, hrest, htoken⟩
    · -- nothing stands in the parentheses
      rw [repeatUntil_none (atPunctuator_of_eq (by rw [hclosing, Token.ofChars_closing]))] at hrounds
      cases hrounds
      cases hinner
    · have hopen : atPunctuator ")" .enclosed _ = some (false, _) :=
        atPunctuator_of_ne (by rcases hnone with h | h <;> rw [h] <;> decide)
      obtain ⟨part, _, _, hpart, -⟩ := repeatUntil_first hopen hrounds
      rw [groupRound_none hnone] at hpart
      cases hpart
    · -- a name stands there, and nothing but the parenthesis may follow it
      generalize (Cursor.ofText (wrapped slice)).take _ = c at hrounds hrest htoken
      obtain ⟨part, _, _, hpart, -⟩ := repeatUntil_first (atPunctuator_of_ne (w := ")") (by rw [htoken]; simp)) hrounds
      have hbehind : ∀ y ∈ behind, Text.isBlank y = true := fun y hy => hs y (by simp [hy])
      have hdrop' : c.rest.drop (Token.ofChars c.rest).2 = behind ++ t := by rw [htoken, hrest, List.drop_left]
      have hround {token : Token} (h : (Token.ofChars (c.take (Token.ofChars c.rest).2).rest).1 = token)
          (hstop : token.stopsValue = true) (hcomma : token ≠ .punctuator ",") :
          token = .punctuator ")" := by
        rw [groupRound_name (congrArg Prod.fst htoken) (isPlainName_nextLines hne hname) (h ▸ hstop) (h ▸ hcomma)] at hpart
        split at hpart
        · next hclosing => exact h.symm.trans hclosing
        · cases hpart
      rcases next_of_blanks hdrop' hbehind ht with
        ⟨hspaces, rfl, -⟩ | (hstray | hbrace) | ⟨_, name', _, -, -, hne', hname', -, htoken'⟩
      · exact ⟨rfl, front, name, behind, rfl, hfront, hne, hname, hspaces⟩
      · cases hround hstray rfl (by decide)
      · exact absurd (hround hbrace rfl (by decide)) (by decide)
      · have hplain := isPlainName_nextLines hne' hname'
        refine absurd (hround (congrArg Prod.fst htoken') ?_ (by simp)) (by simp)
        simp [Token.stopsValue, ne_of_isPlainName hplain (k := "in") (by decide +kernel),
          ne_of_isPlainName hplain (k := "instanceof") (by decide +kernel)]
  · rintro ⟨rfl, hname⟩
    have hsame : slice = s := by
      simpa [wrapped] using hslice
    obtain ⟨parts, d, inner, hparts, hstop, hinner⟩ := groupParts_nextLineName hname
    exact ⟨_, embedded?_eq_some_iff.2 ⟨parts, d, inner, hsame ▸ hparts, hsame ▸ hstop, hinner, rfl⟩⟩

/-! ### The search -/

variable {content : List Char} {stop offset : Nat} {e : Embedded}

/-- **The search finds the first brace that works.** -/
theorem searchEnd?_eq_some_iff {before : List Char} {n : Nat} :
    searchEnd? offset before cs = some (e, n) ↔
      ∃ inner next, cs = inner ++ '}' :: next ∧ n = before.length + inner.length ∧
        embedded? (before.reverse ++ inner) offset = some e ∧
        ∀ inner' next', cs = inner' ++ '}' :: next' → inner'.length < inner.length →
          embedded? (before.reverse ++ inner') offset = none := by
  induction cs generalizing before with
  | nil => simp [searchEnd?]
  | cons c cs ih =>
      -- the search goes on where there is no brace, or one that does not work
      have hgo (hskip : c = '}' → embedded? before.reverse offset = none) :
          searchEnd? offset (c :: before) cs = some (e, n) ↔
          ∃ inner next, c :: cs = inner ++ '}' :: next ∧ n = before.length + inner.length ∧
            embedded? (before.reverse ++ inner) offset = some e ∧
            ∀ inner' next', c :: cs = inner' ++ '}' :: next' → inner'.length < inner.length →
              embedded? (before.reverse ++ inner') offset = none := by
        rw [ih]
        constructor
        · rintro ⟨inner, next, rfl, rfl, he, hleast⟩
          refine ⟨c :: inner, next, rfl, by simp; omega, by simpa using he, fun inner' next' heq hlt => ?_⟩
          cases inner' with
          | nil => simpa using hskip (List.cons.inj heq).1
          | cons y inner' =>
              obtain ⟨rfl, htail⟩ := List.cons.inj heq
              simpa using hleast inner' next' htail (by simpa using hlt)
        · rintro ⟨inner, next, heq, rfl, he, hleast⟩
          cases inner with
          | nil =>
              rw [List.append_nil, hskip (List.cons.inj heq).1] at he
              cases he
          | cons y inner =>
              obtain ⟨rfl, rfl⟩ := List.cons.inj heq
              refine ⟨inner, next, rfl, by simp; omega, by simpa using he, fun inner' next' heq hlt => ?_⟩
              simpa using hleast (c :: inner') next' (congrArg (c :: ·) heq) (by simpa using hlt)
      rw [searchEnd?]
      by_cases hc : c = '}'
      · rw [if_pos (beq_iff_eq.2 hc)]
        split
        · next e' he' =>
            simp only [Option.some.injEq, Prod.mk.injEq]
            constructor
            · rintro ⟨rfl, rfl⟩
              exact ⟨[], cs, by rw [hc]; rfl, by simp, by simpa using he', fun _ _ _ hlt => absurd hlt (by simp)⟩
            · rintro ⟨inner, next, heq, rfl, he, hleast⟩
              cases inner with
              | nil =>
                  rw [List.append_nil, he'] at he
                  exact ⟨Option.some.inj he, by simp⟩
              | cons y inner =>
                  have hnone := hleast [] cs (by rw [hc]; rfl) (by simp)
                  rw [List.append_nil, he'] at hnone
                  cases hnone
        · next hnone => exact hgo fun _ => hnone
      · rw [if_neg (by simpa using hc)]
        exact hgo fun h => absurd h hc

theorem drop_eq_extract_append (hle : pos ≤ stop) (h : content[stop]? = some x) :
    content.drop pos = content.extract pos stop ++ x :: content.drop (stop + 1) := by
  have hstop : content.drop stop = x :: content.drop (stop + 1) := (drop_of_getElem? h).2
  rw [← hstop, List.extract_eq_take_drop]
  have hdrop : content.drop stop = (content.drop pos).drop (stop - pos) := by
    rw [List.drop_drop, Nat.add_sub_cancel' hle]
  rw [hdrop, List.take_append_drop]

theorem extract_of_drop_eq (h : content.drop pos = s ++ x :: t) :
    content[pos + s.length]? = some x ∧ content.extract pos (pos + s.length) = s := by
  constructor
  · rw [← List.getElem?_drop, h]
    simp
  · rw [List.extract_eq_take_drop, h, Nat.add_sub_cancel_left, List.take_left]

theorem length_extract_of_brace (hle : pos ≤ stop) (h : content[stop]? = some x) :
    pos + (content.extract pos stop).length = stop := by
  have hlt := (drop_of_getElem? h).1
  rw [List.extract_eq_take_drop, List.length_take, List.length_drop]
  omega

/-! ### Braces that work -/

/-- A program is one expression in parentheses from its first byte to its last, and they hold one node. -/
def SoleExpression (size : Nat) (program node : Node) : Prop :=
  ∃ statement outer, program.children = [statement] ∧ statement.kind = .expressionStatement ∧
    statement.children = [outer] ∧ outer.kind = .parenthesizedExpression ∧ outer.start = 0 ∧ outer.stop = size ∧
    outer.children = [node]

/-- A closing brace works: the text before it, in parentheses, is a program of one expression. -/
structure EndsAt (content : List Char) (pos stop : Nat) (e : Embedded) : Prop where
  le : pos ≤ stop
  brace : content[stop]? = some '}'
  text_eq : e.text = wrapped (content.extract pos stop)
  offset_eq : e.offset = pos
  lead_eq : e.lead = 1
  read : parseProgram? e.text = some e.root
  sole : SoleExpression (Text.byteLength e.text) e.root e.node

theorem endsAt_iff : EndsAt content pos stop e ↔
    pos ≤ stop ∧ content[stop]? = some '}' ∧ embedded? (content.extract pos stop) pos = some e := by
  constructor
  · rintro ⟨hle, hbrace, htext, hoffset, hlead, hread, hsole⟩
    refine ⟨hle, hbrace, ?_⟩
    obtain ⟨⟨text, root, offset, lead⟩, node⟩ := e
    dsimp only at htext hoffset hlead hread hsole
    subst htext hoffset hlead
    have hnode : onlyExpression? _ root = some node := onlyExpression?_eq_some_iff.2 hsole
    unfold embedded? wrappedSource?
    rw [hread]
    simp only [Option.map_some, Option.bind_eq_bind, Option.bind_some, hnode]
    rfl
  · rintro ⟨hle, hbrace, h⟩
    obtain ⟨source, hsource, h⟩ := Option.bind_eq_some_iff.1 h
    obtain ⟨root, hroot, rfl⟩ := Option.map_eq_some_iff.1 hsource
    obtain ⟨node, hnode, h⟩ := Option.bind_eq_some_iff.1 h
    cases h
    exact ⟨hle, hbrace, rfl, rfl, rfl, hroot, onlyExpression?_eq_some_iff.1 hnode⟩

/-- Nothing but blanks stands before the first closing brace from a place on. -/
def BlankAhead (content : List Char) (pos : Nat) : Prop :=
  ∃ first, pos ≤ first ∧ content[first]? = some '}' ∧ ∀ y ∈ content.extract pos first, Text.isBlank y = true

theorem not_mem_of_blank (hs : ∀ y ∈ s, Text.isBlank y = true) : '}' ∉ s :=
  fun h => absurd (hs _ h) (by decide)

theorem takeWhile_brace (h : '}' ∉ s) : (s ++ '}' :: t).takeWhile (· ≠ '}') = s := by
  rw [List.takeWhile_append_of_pos]
  · simp
  · intro y hy
    simp only [ne_eq, decide_eq_true_eq]
    rintro rfl
    exact h hy

theorem blankBeforeBrace_iff : blankBeforeBrace (content.drop pos) = true ↔ BlankAhead content pos := by
  simp only [blankBeforeBrace, Bool.and_eq_true, List.contains_iff_mem, Text.allBlank, List.all_eq_true]
  constructor
  · rintro ⟨hmem, hblank⟩
    obtain ⟨s, t, heq, hs⟩ := List.eq_append_cons_of_mem hmem
    obtain ⟨hbrace, hextract⟩ := extract_of_drop_eq heq
    rw [heq, takeWhile_brace hs] at hblank
    exact ⟨pos + s.length, by omega, hbrace, hextract.symm ▸ hblank⟩
  · rintro ⟨first, hle, hbrace, hblank⟩
    rw [drop_eq_extract_append hle hbrace, takeWhile_brace (not_mem_of_blank hblank)]
    exact ⟨by simp, hblank⟩

/-- **The braces that work behind blanks**: one at most, behind a name of next-line characters. -/
theorem exists_endsAt_blank_iff (h : BlankAhead content pos) :
    (∃ e, EndsAt content pos stop e) ↔
      pos ≤ stop ∧ content[stop]? = some '}' ∧ NextLineName (content.extract pos stop) := by
  constructor
  · rintro ⟨e, he⟩
    obtain ⟨hle, hbrace, hread⟩ := endsAt_iff.1 he
    refine ⟨hle, hbrace, ?_⟩
    obtain ⟨first, hfirst, hopen, hblank⟩ := h
    have hnot := not_mem_of_blank hblank
    have heq := (drop_eq_extract_append hle hbrace).symm.trans (drop_eq_extract_append hfirst hopen)
    generalize content.extract pos first = s at hblank hnot heq
    -- the text goes up to the first brace, or over it
    rcases List.append_eq_append_iff.1 heq with ⟨u, hs, hu⟩ | ⟨u, hslice, hu⟩
    · cases u with
      | nil =>
          rw [List.append_nil] at hs
          have hwrapped : wrapped (content.extract pos stop) = '(' :: (s ++ ['\n', ')']) := by rw [hs]; rfl
          exact hs ▸ ((exists_embedded?_blank_iff hwrapped hblank (.inl rfl)).1 ⟨e, hread⟩).2
      | cons y u =>
          obtain ⟨rfl, -⟩ := List.cons.inj hu
          exact absurd (by simp [hs]) hnot
    · cases u with
      | nil =>
          rw [List.append_nil] at hslice
          have hwrapped : wrapped (content.extract pos stop) = '(' :: (s ++ ['\n', ')']) := by rw [hslice]; rfl
          exact hslice ▸ ((exists_embedded?_blank_iff hwrapped hblank (.inl rfl)).1 ⟨e, hread⟩).2
      | cons y u =>
          obtain ⟨rfl, -⟩ := List.cons.inj hu
          have hwrapped : wrapped (content.extract pos stop) = '(' :: (s ++ '}' :: (u ++ ['\n', ')'])) := by
            rw [hslice]
            simp [wrapped]
          have hclose := ((exists_embedded?_blank_iff hwrapped hblank (.inr ⟨_, rfl⟩)).1 ⟨e, hread⟩).1
          exact absurd (List.cons.inj hclose).1 (by decide)
  · rintro ⟨hle, hbrace, hname⟩
    obtain ⟨parts, d, inner, hparts, hstop, hinner⟩ := groupParts_nextLineName hname
    exact ⟨_, endsAt_iff.2 ⟨hle, hbrace, embedded?_eq_some_iff.2 ⟨parts, d, inner, hparts, hstop, hinner, rfl⟩⟩⟩

/-- An expression is found where the first brace that works is, and there are not only blanks before the first
brace. -/
theorem parseEmbedded_eq_ok_iff_endsAt :
    parseEmbedded (content.drop pos) pos = .ok (e, stop) ↔
      EndsAt content pos stop e ∧ (∀ j e', EndsAt content pos j e' → stop ≤ j) ∧ ¬BlankAhead content pos := by
  rw [parseEmbedded, ← blankBeforeBrace_iff]
  split
  · next hblank => simp [hblank]
  · next hblank =>
      constructor
      · intro h
        split at h
        · next hsearch =>
            cases h
            obtain ⟨inner, next, hdrop, rfl, he, hleast⟩ := searchEnd?_eq_some_iff.1 hsearch
            obtain ⟨hbrace, hextract⟩ := extract_of_drop_eq hdrop
            rw [List.length_nil, Nat.zero_add]
            refine ⟨endsAt_iff.2 ⟨by omega, hbrace, by rw [hextract]; simpa using he⟩, fun j e' h' => ?_, hblank⟩
            obtain ⟨hle, hj, hread⟩ := endsAt_iff.1 h'
            have hlength := length_extract_of_brace hle hj
            by_contra hlt
            have hnone := hleast _ _ (drop_eq_extract_append hle hj) (by omega)
            rw [List.reverse_nil, List.nil_append, hread] at hnone
            cases hnone
        · cases h
      · rintro ⟨hends, hleast, -⟩
        obtain ⟨hle, hbrace, hread⟩ := endsAt_iff.1 hends
        have hlength := length_extract_of_brace hle hbrace
        have hsearch : searchEnd? pos [] (content.drop pos) = some (e, (content.extract pos stop).length) := by
          refine searchEnd?_eq_some_iff.2 ⟨_, _, drop_eq_extract_append hle hbrace, by simp, by simpa using hread, ?_⟩
          intro inner next hdrop hlt
          obtain ⟨hj, hextract⟩ := extract_of_drop_eq hdrop
          rw [List.reverse_nil, List.nil_append, Option.eq_none_iff_forall_ne_some]
          intro e' he'
          have := hleast _ e' (endsAt_iff.2 ⟨by omega, hj, by rw [hextract]; exact he'⟩)
          omega
        rw [hsearch]
        simp only [hlength]

/-- Faults of an expression: it is invalid, or the text ends in it. -/
theorem code_embeddedFault (cs : List Char) (offset : Nat) :
    (embeddedFault cs offset).fault.code = .invalidExpression ∨
      (embeddedFault cs offset).fault.code = .unexpectedEnd := by
  unfold embeddedFault
  split
  · next h =>
      obtain ⟨s, t, closers, -, -, hstops⟩ := scanEnd_eq_iff.1 h
      cases hstops with
      | unbalanced => exact .inl rfl
      | wrong => exact .inl rfl
      | ended => exact .inr rfl
  · dsimp only
    split <;> exact .inl rfl

/-! ### The result -/

/-- **The first closing brace that works ends the expression.**  It is found wherever there is one, except that a
place with nothing but blanks before the first brace is refused; there a brace works exactly when a name of
next-line characters stands before it.  All faults are those of invalid and of unfinished expressions. -/
theorem parseEmbedded_ends_at_first (content : List Char) (pos : Nat) :
    (∀ e stop, parseEmbedded (content.drop pos) pos = .ok (e, stop) ↔
      EndsAt content pos stop e ∧ (∀ j e', EndsAt content pos j e' → stop ≤ j) ∧ ¬BlankAhead content pos) ∧
    (BlankAhead content pos →
      parseEmbedded (content.drop pos) pos = .error ⟨.emptyExpression, pos⟩ ∧
      ∀ stop, (∃ e, EndsAt content pos stop e) ↔
        pos ≤ stop ∧ content[stop]? = some '}' ∧ NextLineName (content.extract pos stop)) ∧
    ∀ l, parseEmbedded (content.drop pos) pos = .error l →
      l.fault.code.number = 1004 ∨ l.fault.code.number = 1002 := by
  refine ⟨fun e stop => parseEmbedded_eq_ok_iff_endsAt, fun hblank => ⟨?_, fun stop => exists_endsAt_blank_iff hblank⟩, fun l h => ?_⟩
  · rw [parseEmbedded, if_pos (blankBeforeBrace_iff.2 hblank)]
  · unfold parseEmbedded at h
    split at h
    · cases h
      exact .inl rfl
    · split at h
      · cases h
      · cases h
        rcases code_embeddedFault (content.drop pos) pos with h | h <;> rw [h]
        · exact .inl rfl
        · exact .inr rfl

/-- An object in an expression, a name of next-line characters, and a parenthesis that is not closed. -/
theorem parseEmbedded_ends_at_first_object :
    (∃ e, parseEmbedded ("x + \x7ba: 1\x7d\x7d".toList.drop 0) 0 = .ok (e, 10) ∧
      EndsAt "x + \x7ba: 1\x7d\x7d".toList 0 10 e ∧ ∀ j e', EndsAt "x + \x7ba: 1\x7d\x7d".toList 0 j e' → 10 ≤ j) ∧
    (BlankAhead ['\u0085', '}'] 0 ∧ parseEmbedded (['\u0085', '}'].drop 0) 0 = .error ⟨.emptyExpression, 0⟩ ∧
      ∃ e, EndsAt ['\u0085', '}'] 0 1 e) ∧
    ∃ l, parseEmbedded (['('].drop 0) 0 = .error l ∧ (l.fault.code.number = 1004 ∨ l.fault.code.number = 1002) := by
  refine ⟨?_, ?_, ?_⟩
  · have hrun : ((parseEmbedded ("x + \x7ba: 1\x7d\x7d".toList.drop 0) 0).toOption.any fun r => r.2 == 10) = true := by
      decide +kernel
    cases hparse : parseEmbedded ("x + \x7ba: 1\x7d\x7d".toList.drop 0) 0 with
    | error l =>
        rw [hparse] at hrun
        cases hrun
    | ok r =>
        obtain ⟨e, stop⟩ := r
        rw [hparse] at hrun
        obtain rfl : stop = 10 := beq_iff_eq.1 hrun
        obtain ⟨hends, hleast, -⟩ := ((parseEmbedded_ends_at_first _ _).1 e 10).1 hparse
        exact ⟨e, rfl, hends, hleast⟩
  · have hline : ∀ y ∈ ['\u0085'], Text.isBlank y = true := List.forall_mem_singleton.2 (by decide)
    have hblank : BlankAhead ['\u0085', '}'] 0 := ⟨1, by decide, by decide, hline⟩
    obtain ⟨herror, hiff⟩ := (parseEmbedded_ends_at_first _ _).2.1 hblank
    have hname : NextLineName (['\u0085', '}'].extract 0 1) :=
      ⟨[], ['\u0085'], [], rfl, List.forall_mem_nil _, by simp, List.forall_mem_singleton.2 rfl, List.forall_mem_nil _⟩
    exact ⟨hblank, herror, (hiff 1).2 ⟨by decide, by decide, hname⟩⟩
  · have herror : parseEmbedded (['('].drop 0) 0 = .error ⟨.unfinishedExpression ')', 1⟩ := rfl
    exact ⟨_, herror, (parseEmbedded_ends_at_first _ _).2.2 _ herror⟩

/-- A name that the script reads is refused as blank. -/
theorem nextLineName_refused :
    (∃ e, EndsAt ['\u0085', '}'] 0 1 e ∧ e.source = "\u0085" ∧ e.node.kind = .identifier) ∧
      parseEmbedded ['\u0085', '}'] 0 = .error ⟨.emptyExpression, 0⟩ := by
  have hrun : ((embedded? ['\u0085'] 0).any fun e => e.source == "\u0085" && e.node.kind == .identifier) = true := by
    decide +kernel
  obtain ⟨e, he, hshown⟩ := (Option.any_eq_true _ _).1 hrun
  simp only [Bool.and_eq_true, beq_iff_eq] at hshown
  exact ⟨⟨e, endsAt_iff.2 ⟨by decide, by decide, he⟩, hshown⟩, rfl⟩

end ReactiveTemplate.Script
