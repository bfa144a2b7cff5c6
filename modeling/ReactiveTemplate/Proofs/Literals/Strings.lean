/-
**Strings of the script and their values.**

A string of the script stands in quotes, and its value is made of code units of sixteen bits.  This module
says how the value is read off the text: which escape sequences there are, what each of them stands for, and
where the string ends.  A literal that is written for a text is read back as that text, and it ends at its
last character whatever follows.  The grammar of the script, which only looks for the end of a string, finds
the same end wherever there is a value.

Main definitions:

* `ReactiveTemplate.Text.units` — the code units of a text;
* `ReactiveTemplate.Script.escapeValue?`, `ReactiveTemplate.Script.stringValue?` — the value of an escape
  sequence, and that of a string;
* `ReactiveTemplate.Script.HasStrings` — the values of the strings of a line.

Main results:

* `ReactiveTemplate.Text.units_inj` — the code units determine the text;
* `ReactiveTemplate.Script.stringValue?_literalChars` — **a literal is read back as its text**;
* `ReactiveTemplate.Script.exists_stringLiteral_of_stringValue?` — a string that has a value is one of the
  grammar;
* `ReactiveTemplate.Script.HasStrings.unique` — the strings of a line are determined.
-/

import Mathlib.Algebra.Ring.Nat
import ReactiveTemplate.Proofs.Embedding.Groups
import ReactiveTemplate.Text.Literal

set_option relaxedAutoImplicit false
set_option autoImplicit false

namespace ReactiveTemplate

/-! ### Code units -/

namespace Text

/-- The code units of a code point: one, or a pair of surrogates. -/
def pointUnits (n : Nat) : List Nat :=
  if n < 0x10000 then [n] else [0xD800 + (n - 0x10000) / 0x400, 0xDC00 + (n - 0x10000) % 0x400]

/-- The code units of a text, which are what a string of the script is made of. -/
def units (cs : List Char) : List Nat :=
  cs.flatMap fun c => pointUnits c.toNat

/-- No character is a surrogate, so the first units of two texts show whether they are pairs. -/
theorem pointUnits_append_inj {c d : Char} {us vs : List Nat}
    (h : pointUnits c.toNat ++ us = pointUnits d.toNat ++ vs) : c = d ∧ us = vs := by
  have hc : c.toNat < 0xD800 ∨ 0xDFFF < c.toNat ∧ c.toNat < 0x110000 := c.valid
  have hd : d.toNat < 0xD800 ∨ 0xDFFF < d.toNat ∧ d.toNat < 0x110000 := d.valid
  have hchar : c.toNat = d.toNat → c = d := Char.toNat_inj.1
  unfold pointUnits at h
  split at h <;> split at h <;>
    simp only [List.cons_append, List.nil_append, List.cons.injEq] at h
  · exact ⟨hchar h.1, h.2⟩
  · omega
  · omega
  · exact ⟨hchar (by omega), h.2.2⟩

/-- The code units determine the text. -/
theorem units_inj {cs ds : List Char} (h : units cs = units ds) : cs = ds := by
  have hne : ∀ n : Nat, pointUnits n ≠ [] := by
    intro n
    unfold pointUnits
    split <;> simp
  induction cs generalizing ds with
  | nil =>
      cases ds with
      | nil => rfl
      | cons d ds => exact absurd h.symm (List.append_ne_nil_of_left_ne_nil (hne _) _)
  | cons c cs ih =>
      cases ds with
      | nil => exact absurd h (List.append_ne_nil_of_left_ne_nil (hne _) _)
      | cons d ds =>
          obtain ⟨rfl, hrest⟩ := pointUnits_append_inj h
          rw [ih hrest]

end Text

/-! ### Strings of the script -/

namespace Script

/-- The number that the first characters of a text make, which are hexadecimal digits. -/
def hexNumber? (width : Nat) (cs : List Char) : Option Nat :=
  let digits := cs.take width
  if digits.length = width ∧ digits.all isHex = true then
    some (digits.foldl (fun value d => value * 16 + hexValue d) 0)
  else none

/-- The code point whose digits stand before a closing brace, and how many characters these and the brace
are; `value` is what the digits before make. -/
def bracedNumber? (value : Option Nat) : List Char → Option (Nat × Nat)
  | '}' :: _ => value.map fun n => (n, 1)
  | c :: cs =>
    let more := value.getD 0 * 16 + hexValue c
    if isHex c && more ≤ 0x10FFFF then (bracedNumber? (some more) cs).map fun r => (r.1, r.2 + 1) else none
  | [] => none

/-- The character that a single character behind a backslash stands for. -/
def escapedChar : Char → Char
  | 'b' => '\x08'
  | 't' => '\t'
  | 'n' => '\n'
  | 'v' => '\x0b'
  | 'f' => '\x0c'
  | 'r' => '\r'
  | c => c

/-- The value of the escape sequence whose backslash stands before a text, and its length without the
backslash.  These are the rules of strict code, where no octal escapes are.  A line that is continued adds
nothing to the value. -/
def escapeValue? : List Char → Option (List Nat × Nat)
  | 'u' :: '{' :: cs => (bracedNumber? none cs).map fun r => (Text.pointUnits r.1, r.2 + 2)
  | 'u' :: cs => (hexNumber? 4 cs).map fun n => ([n], 5)
  | 'x' :: cs => (hexNumber? 2 cs).map fun n => ([n], 3)
  | '\r' :: '\n' :: _ => some ([], 2)
  | '0' :: cs => if cs.head?.any isDecimal then none else some ([0], 1)
  | c :: _ =>
    if isLineEnd c then some ([], 1)
    else if isDecimal c then none
    else some (Text.pointUnits (escapedChar c).toNat, 1)
  | [] => none

/-- The value of a string from a place inside it on, and what follows the quote that ends it.  The first
`skipped` characters belong to an escape sequence whose value is known. -/
def stringTail? (mark : Char) : Nat → List Char → Option (List Nat × List Char)
  | _, [] => none
  | skipped + 1, _ :: cs => stringTail? mark skipped cs
  | 0, c :: cs =>
    if c = mark then some ([], cs)
    else if c = '\\' then
      match escapeValue? cs with
      | some (value, n) => (stringTail? mark n cs).map fun r => (value ++ r.1, r.2)
      | none => none
    else if c = '\n' ∨ c = '\r' then none
    else (stringTail? mark 0 cs).map fun r => (Text.pointUnits c.toNat ++ r.1, r.2)

/-- The value of the string that a text starts with, and what follows it. -/
def stringValue? : List Char → Option (List Nat × List Char)
  | [] => none
  | c :: cs => if c = '"' ∨ c = '\'' then stringTail? c 0 cs else none

/-! ### Literals denote their texts -/

theorem le_toNat_of_le {a c : Char} (h : a ≤ c) : a.toNat ≤ c.toNat := h

theorem le_toNat_of_isHex {c : Char} (h : isHex c = true) : 0x20 ≤ c.toNat := by
  simp only [isHex, isDecimal, Bool.or_eq_true, Bool.and_eq_true, decide_eq_true_eq] at h
  rcases h with (⟨h, -⟩ | ⟨h, -⟩) | ⟨h, -⟩ <;> exact Nat.le_trans (by decide) (le_toNat_of_le h)

theorem isHex_hexDigit : ∀ d < 16, isHex (Text.hexDigit d) = true := by decide

theorem hexValue_hexDigit : ∀ d < 16, hexValue (Text.hexDigit d) = d := by decide

@[simp] theorem length_hexDigits (width n : Nat) : (Text.hexDigits width n).length = width := by
  induction width generalizing n with
  | zero => rfl
  | succ width ih => rw [Text.hexDigits, List.length_append, ih, List.length_singleton]

theorem all_isHex_hexDigits (width n : Nat) : (Text.hexDigits width n).all isHex = true := by
  induction width generalizing n with
  | zero => rfl
  | succ width ih =>
      rw [Text.hexDigits, List.all_append, ih, List.all_cons, isHex_hexDigit _ (Nat.mod_lt _ (by decide))]
      rfl

theorem foldl_hexDigits (width n : Nat) :
    (Text.hexDigits width n).foldl (fun value d => value * 16 + hexValue d) 0 = n % 16 ^ width := by
  induction width generalizing n with
  | zero => rw [Nat.pow_zero, Nat.mod_one]; rfl
  | succ width ih =>
      rw [Text.hexDigits, List.foldl_append, ih, List.foldl_cons, List.foldl_nil,
        hexValue_hexDigit _ (Nat.mod_lt _ (by decide)), Nat.pow_succ', Nat.mod_mul]
      omega

/-- Digits written at a width are read back at that width. -/
theorem hexNumber?_hexDigits (width n : Nat) (rest : List Char) :
    hexNumber? width (Text.hexDigits width n ++ rest) = some (n % 16 ^ width) := by
  have htake : (Text.hexDigits width n ++ rest).take width = Text.hexDigits width n :=
    List.take_left' (length_hexDigits width n)
  rw [hexNumber?]
  simp only [htake]
  rw [if_pos ⟨length_hexDigits width n, all_isHex_hexDigits width n⟩, foldl_hexDigits]

/-- What is skipped counts for nothing. -/
theorem stringTail?_skip (mark : Char) (n : Nat) (cs : List Char) :
    stringTail? mark n cs = stringTail? mark 0 (cs.drop n) := by
  induction n generalizing cs with
  | zero => rfl
  | succ n ih =>
      cases cs with
      | nil => rfl
      | cons c cs => exact ih cs

/-- An escape sequence in a string adds its value. -/
theorem stringTail?_escape {mark : Char} {value : List Nat} (hmark : mark ≠ '\\') (escape rest : List Char)
    (h : escapeValue? (escape ++ rest) = some (value, escape.length)) :
    stringTail? mark 0 ('\\' :: (escape ++ rest)) =
      (stringTail? mark 0 rest).map fun r => (value ++ r.1, r.2) := by
  rw [stringTail?, if_neg hmark.symm, if_pos rfl, h]
  dsimp only
  rw [stringTail?_skip, List.drop_left]

/-- Four digits behind the letter are a unit. -/
theorem escapeValue?_hexDigits {n : Nat} (h : n < 16 ^ 4) (rest : List Char) :
    escapeValue? ('u' :: (Text.hexDigits 4 n ++ rest)) = some ([n], 5) := by
  -- the first digit is no brace
  have hbrace : ∀ cs, Text.hexDigits 4 n ++ rest ≠ '{' :: cs := by
    intro cs heq
    have hfirst : Text.hexDigit (n / 16 / 16 / 16 % 16) = '{' := (List.cons.inj heq).1
    have hhex := isHex_hexDigit (n / 16 / 16 / 16 % 16) (Nat.mod_lt _ (by decide))
    rw [hfirst] at hhex
    exact absurd hhex (by decide)
  rw [escapeValue?, hexNumber?_hexDigits, Nat.mod_eq_of_lt h]
  · rfl
  · exact hbrace

/-- Each character is read back from the way it is written in a literal. -/
theorem stringTail?_literalChar (c : Char) (rest : List Char) :
    stringTail? '"' 0 (Text.literalChar c ++ rest) =
      (stringTail? '"' 0 rest).map fun r => (Text.pointUnits c.toNat ++ r.1, r.2) := by
  have hmark : '"' ≠ '\\' := by decide
  unfold Text.literalChar
  split
  · next h => subst h; exact stringTail?_escape hmark ['"'] rest rfl
  split
  · next h => subst h; exact stringTail?_escape hmark ['\\'] rest rfl
  split
  · next h => subst h; exact stringTail?_escape hmark ['n'] rest rfl
  split
  · next h => subst h; exact stringTail?_escape hmark ['r'] rest rfl
  split
  · next h => subst h; exact stringTail?_escape hmark ['t'] rest rfl
  split
  · next h => subst h; exact stringTail?_escape hmark ['b'] rest rfl
  split
  · next h => subst h; exact stringTail?_escape hmark ['f'] rest rfl
  split
  · next hcontrol =>
      have hunits : Text.pointUnits c.toNat = [c.toNat] := if_pos (by omega)
      rw [hunits]
      exact stringTail?_escape hmark ('u' :: Text.hexDigits 4 c.toNat) rest
        (escapeValue?_hexDigits (by omega) rest)
  · next hquote hbackslash hfeed hreturn _ _ _ _ =>
      rw [List.singleton_append, stringTail?, if_neg hquote, if_neg hbackslash,
        if_neg (not_or.2 ⟨hfeed, hreturn⟩)]

/-- **A literal is read back.**  The string ends with the literal, whatever follows, and its value is the
text. -/
theorem stringValue?_literalChars (cs rest : List Char) :
    stringValue? (Text.literalChars cs ++ rest) = some (Text.units cs, rest) := by
  have htail : stringTail? '"' 0 (cs.flatMap Text.literalChar ++ '"' :: rest) = some (Text.units cs, rest) := by
    induction cs with
    | nil => rfl
    | cons c cs ih =>
        rw [List.flatMap_cons, List.append_assoc, stringTail?_literalChar, ih]
        rfl
  rw [Text.literalChars, List.cons_append, List.append_assoc, stringValue?, if_pos (.inl rfl)]
  exact htail

theorem le_toNat_of_mem_escape {c : Char} (h : 0x20 ≤ c.toNat) : ∀ d ∈ ['\\', c], 0x20 ≤ d.toNat :=
  List.forall_mem_cons.2 ⟨by decide, List.forall_mem_singleton.2 h⟩

/-- A literal has no control characters. -/
theorem le_toNat_of_mem_literalChar (c : Char) : ∀ d ∈ Text.literalChar c, 0x20 ≤ d.toNat := by
  unfold Text.literalChar
  split_ifs with _ _ _ _ _ _ _ hcontrol
  iterate 7 exact le_toNat_of_mem_escape (by decide)
  · refine List.forall_mem_cons.2 ⟨by decide, List.forall_mem_cons.2 ⟨by decide, fun d hd => ?_⟩⟩
    exact le_toNat_of_isHex (List.all_eq_true.1 (all_isHex_hexDigits 4 c.toNat) d hd)
  · exact List.forall_mem_singleton.2 (Nat.not_lt.1 hcontrol)

theorem le_toNat_of_mem_literalChars {cs : List Char} {c : Char} (h : c ∈ Text.literalChars cs) :
    0x20 ≤ c.toNat := by
  rcases List.mem_cons.1 h with rfl | h
  · decide
  rcases List.mem_append.1 h with h | h
  · obtain ⟨d, -, hc⟩ := List.mem_flatMap.1 h
    exact le_toNat_of_mem_literalChar d c hc
  · rw [List.mem_singleton.1 h]
    decide

theorem toList_literal (text : String) : (Text.literal text).toList = Text.literalChars text.toList :=
  String.toList_ofList

/-! ### Strings of the grammar -/

theorem bracedEscapeLength_of_bracedNumber? {value : Option Nat} {cs : List Char} {r : Nat × Nat}
    (h : bracedNumber? value cs = some r) : bracedEscapeLength value cs = some r.2 := by
  induction cs generalizing value r with
  | nil => cases h
  | cons c cs ih =>
      by_cases hbrace : c = '}'
      · subst hbrace
        obtain ⟨n, rfl, rfl⟩ := Option.map_eq_some_iff.1 h
        rfl
      · rw [bracedNumber?.eq_2 _ _ _ hbrace] at h
        obtain ⟨hdigit, hmore⟩ := Option.ite_none_right_eq_some.1 h
        obtain ⟨s, hs, rfl⟩ := Option.map_eq_some_iff.1 hmore
        rw [bracedEscapeLength.eq_2 _ _ _ hbrace, if_pos hdigit, ih hs]
        rfl

theorem isDecimal_of_isOctal {c : Char} (h : isOctal c = true) : isDecimal c = true := by
  simp only [isOctal, isDecimal, Bool.and_eq_true, decide_eq_true_eq] at h ⊢
  exact ⟨h.1, Nat.le_trans (le_toNat_of_le h.2) (by decide)⟩

/-- A single character behind a backslash. -/
theorem escapeLength_single {c : Char} {cs : List Char} (hu : c ≠ 'u') (hx : c ≠ 'x')
    (hfeed : ∀ tail, c = '\r' → cs = '\n' :: tail → False)
    (hoctal : isOctal c = true → (cs.take 2).takeWhile isOctal = []) :
    escapeLength ('\\' :: c :: cs) = some 2 := by
  rw [escapeLength, if_neg (by simpa using hx)]
  · split
    · next h => rw [hoctal h]; rfl
    · rfl
  · exact hu
  · exact fun _ _ _ heq => absurd heq hx
  · exact hfeed

/-- An escape sequence that has a value is one of the grammar, of the same length. -/
theorem escapeLength_of_escapeValue? {cs : List Char} {value : List Nat} {n : Nat}
    (h : escapeValue? cs = some (value, n)) : escapeLength ('\\' :: cs) = some (n + 1) := by
  unfold escapeValue? at h
  split at h
  · -- a code point in braces
    obtain ⟨r, hr, heq⟩ := Option.map_eq_some_iff.1 h
    cases heq
    rw [escapeLength, unicodeEscapeLength, bracedEscapeLength_of_bracedNumber? hr]
    rfl
  · -- four digits
    next cs hbrace =>
      obtain ⟨r, hr, heq⟩ := Option.map_eq_some_iff.1 h
      cases heq
      obtain ⟨⟨hlength, hhex⟩, -⟩ := Option.ite_none_right_eq_some.1 hr
      rcases cs with _ | ⟨a, _ | ⟨b, _ | ⟨c, _ | ⟨d, rest⟩⟩⟩⟩
      iterate 4 cases hlength
      have hdigits : (isHex a && isHex b && isHex c && isHex d) = true := by
        simpa [Bool.and_assoc] using hhex
      rw [escapeLength, unicodeEscapeLength, if_pos hdigits]
      exact fun heq => hbrace _ (by rw [heq])
  · -- two digits
    next cs =>
      obtain ⟨r, hr, heq⟩ := Option.map_eq_some_iff.1 h
      cases heq
      obtain ⟨⟨hlength, hhex⟩, -⟩ := Option.ite_none_right_eq_some.1 hr
      rcases cs with _ | ⟨a, _ | ⟨b, rest⟩⟩
      iterate 2 cases hlength
      have hdigits : (isHex a && isHex b) = true := by simpa using hhex
      rw [escapeLength, if_pos hdigits]
  · cases h
    rfl
  · -- a zero, with no digit behind it
    next cs =>
      obtain ⟨hdecimal, heq⟩ := Option.ite_none_left_eq_some.1 h
      cases heq
      refine escapeLength_single (by decide) (by decide) (fun _ heq => absurd heq (by decide)) fun _ => ?_
      cases cs with
      | nil => rfl
      | cons c cs => exact List.takeWhile_cons_of_neg (mt isDecimal_of_isOctal hdecimal)
  · next c cs _ hu hx hfeed _ =>
      have hsingle : n = 1 ∧ isDecimal c = false := by
        split at h
        · next hend =>
            cases h
            simp only [isLineEnd, Bool.or_eq_true, beq_iff_eq] at hend
            rcases hend with ((rfl | rfl) | rfl) | rfl <;> exact ⟨rfl, rfl⟩
        · obtain ⟨hdecimal, heq⟩ := Option.ite_none_left_eq_some.1 h
          cases heq
          exact ⟨rfl, Bool.eq_false_iff.2 hdecimal⟩
      obtain ⟨rfl, hdecimal⟩ := hsingle
      refine escapeLength_single hu hx hfeed fun hoctal => ?_
      rw [isDecimal_of_isOctal hoctal] at hdecimal
      cases hdecimal
  · cases h

section Reading

variable {mark : Char} (place : Place) {c : Cursor} {cs rest : List Char} {value : List Nat}

/-- Behind the characters that go without an escape the string ends at the same place. -/
theorem exists_stringTail?_drop_plainLength (h : stringTail? mark 0 cs = some (value, rest)) :
    ∃ value', stringTail? mark 0 (cs.drop (plainLength mark cs)) = some (value', rest) := by
  induction cs generalizing value with
  | nil => cases h
  | cons c cs ih =>
      rw [plainLength]
      split
      · exact ⟨value, h⟩
      · next hplain =>
          simp only [Bool.or_eq_true, beq_iff_eq, not_or] at hplain
          obtain ⟨⟨⟨hmark, hescape⟩, hfeed⟩, hreturn⟩ := hplain
          rw [stringTail?, if_neg hmark, if_neg hescape, if_neg (not_or.2 ⟨hfeed, hreturn⟩)] at h
          obtain ⟨r, hr, heq⟩ := Option.map_eq_some_iff.1 h
          cases heq
          exact ih hr

theorem rawLeaf_eq_some (kind : Kind) {n : Nat} (hn : n ≠ 0) :
    ∃ node, rawLeaf kind n place c = some (node, c.takeRaw n) := by
  obtain ⟨n, rfl⟩ := Nat.exists_eq_succ_of_ne_zero hn
  exact ⟨_, rfl⟩

theorem pos_takeRaw_add (c : Cursor) (n : Nat) :
    (c.takeRaw n).pos + Text.byteLength (c.takeRaw n).rest = c.pos + Text.byteLength c.rest := by
  have hsplit : Text.byteLength c.rest = Text.byteLength (c.rest.take n) + Text.byteLength (c.rest.drop n) := by
    rw [← Text.byteLength_append, List.take_append_drop]
  rw [hsplit, ← Nat.add_assoc]
  rfl

/-- One piece of a string: an escape sequence, or characters that go without. -/
def stringPiece (mark : Char) : Parser Node := do
  if ← atChar '\\' then
    escapeSequence
  else
    rawLeaf .stringFragment (plainLength mark (← get).rest)

theorem get_bind {β : Type} (f : Cursor → Parser β) (place : Place) (c : Cursor) :
    (get >>= f) place c = f c place c := rfl

theorem modify_bind {β : Type} (f : Cursor → Cursor) (k : Unit → Parser β) (place : Place) (c : Cursor) :
    (modify f >>= k) place c = k () place (f c) := rfl

theorem atChar_apply (x : Char) (place : Place) (c : Cursor) :
    atChar x place c = some (c.rest.head? == some x, c) := rfl

theorem escapeSequence_of_escapeLength {n : Nat} (h : escapeLength c.rest = some n) :
    escapeSequence place c = rawLeaf .escapeSequence n place c := by
  rw [escapeSequence, get_bind, h]

theorem stringPiece_backslash (h : c.rest.head? = some '\\') :
    stringPiece mark place c = escapeSequence place c := by
  rw [stringPiece, bind_apply, atChar_apply, h]
  rfl

theorem stringPiece_plain (h : c.rest.head? ≠ some '\\') :
    stringPiece mark place c = rawLeaf .stringFragment (plainLength mark c.rest) place c := by
  rw [stringPiece, bind_apply, atChar_apply, beq_eq_false_iff_ne.2 h]
  rfl

/-- Inside a string that has a value there is a piece, and behind it the string ends at the same place. -/
theorem exists_stringPiece (h : stringTail? mark 0 c.rest = some (value, rest))
    (hopen : c.rest.head? ≠ some mark) :
    ∃ node n value', n ≠ 0 ∧ stringPiece mark place c = some (node, c.takeRaw n) ∧
      stringTail? mark 0 (c.takeRaw n).rest = some (value', rest) := by
  cases hrest : c.rest with
  | nil => rw [hrest] at h; cases h
  | cons x xs =>
      have hmark : x ≠ mark := by simpa [hrest] using hopen
      by_cases hescape : x = '\\'
      · subst hescape
        rw [hrest, stringTail?, if_neg hmark, if_pos rfl] at h
        split at h
        · next escaped n hescaped =>
            obtain ⟨r, hr, heq⟩ := Option.map_eq_some_iff.1 h
            cases heq
            obtain ⟨node, hnode⟩ := rawLeaf_eq_some place .escapeSequence n.succ_ne_zero
            refine ⟨node, n + 1, r.1, n.succ_ne_zero, ?_, ?_⟩
            · rw [stringPiece_backslash place (by rw [hrest]; rfl), escapeSequence_of_escapeLength place, hnode]
              rw [hrest, escapeLength_of_escapeValue? hescaped]
            · rw [← hr, stringTail?_skip mark n, Cursor.takeRaw, hrest]
              rfl
        · cases h
      · have hline : ¬(x = '\n' ∨ x = '\r') := by
          intro hline
          rw [hrest, stringTail?, if_neg hmark, if_neg hescape, if_pos hline] at h
          cases h
        have hpositive : plainLength mark c.rest ≠ 0 := by
          rw [hrest, plainLength, if_neg (by simpa [hmark, hescape] using hline)]
          exact Nat.succ_ne_zero _
        obtain ⟨node, hnode⟩ := rawLeaf_eq_some place .stringFragment hpositive
        obtain ⟨value', hvalue⟩ := exists_stringTail?_drop_plainLength h
        refine ⟨node, _, value', hpositive, ?_, hvalue⟩
        rw [stringPiece_plain place (by simpa [hrest] using hescape), hnode]

/-- The pieces of a string that has a value lead to the quote that ends it. -/
theorem exists_stringPieces (rounds : Nat) : ∀ {c : Cursor} {value : List Nat}, c.rest.length < rounds →
    stringTail? mark 0 c.rest = some (value, rest) →
    ∃ pieces d, repeatAtMost (atChar mark) (stringPiece mark) rounds place c = some (pieces, d) ∧
      d.rest = mark :: rest ∧ d.pos + Text.byteLength d.rest = c.pos + Text.byteLength c.rest := by
  induction rounds with
  | zero => exact fun hlength => absurd hlength (Nat.not_lt_zero _)
  | succ rounds ih =>
      intro c value hlength h
      by_cases hopen : c.rest.head? = some mark
      · refine ⟨[], c, ?_, ?_, rfl⟩
        · rw [repeatAtMost, bind_apply, atChar_apply, hopen, beq_self_eq_true]
          rfl
        · obtain ⟨xs, hrest⟩ := List.head?_eq_some_iff.1 hopen
          rw [hrest, stringTail?, if_pos rfl] at h
          cases h
          exact hrest
      · obtain ⟨node, n, value', hn, hpiece, htail⟩ := exists_stringPiece place h hopen
        have hshorter : (c.takeRaw n).rest.length < rounds := by
          have hne : c.rest ≠ [] := fun hnil => by rw [hnil] at h; cases h
          have hpositive : 0 < c.rest.length := List.length_pos_iff.2 hne
          have hlength' : (c.takeRaw n).rest.length = c.rest.length - n := List.length_drop
          omega
        obtain ⟨pieces, d, hpieces, hd, hpos⟩ := ih hshorter htail
        refine ⟨node :: pieces, d, ?_, hd, hpos.trans (pos_takeRaw_add c n)⟩
        rw [repeatAtMost, bind_apply, atChar_apply, beq_eq_false_iff_ne.2 hopen, Option.bind_some]
        simp only [Bool.false_eq_true, if_false]
        rw [bind_apply, hpiece, Option.bind_some, bind_apply, hpieces]
        rfl

end Reading

theorem Token.ofChars_quote {mark : Char} (h : mark = '"' ∨ mark = '\'') (cs : List Char) :
    (Token.ofChars (mark :: cs)).1 = .quote mark := by
  have hnumber : numberLength (mark :: cs) = 0 := by
    rcases h with rfl | rfl <;> exact numberLength_eq_zero (by decide) (by decide) cs
  rcases h with rfl | rfl <;> simp [Token.ofChars, wordLength, isNameStart, hnumber]

/-- A string that has a value is one string of the grammar, and both end at the same place. -/
theorem exists_stringLiteral_of_stringValue? (place : Place) {c : Cursor} {value : List Nat} {rest : List Char}
    (h : stringValue? c.rest = some (value, rest)) :
    ∃ node d, stringLiteral place c = some (node, d) ∧ node.kind = .string ∧ node.start = c.pos ∧
      node.stop + Text.byteLength rest = c.pos + Text.byteLength c.rest ∧ d.behind = rest := by
  cases hrest : c.rest with
  | nil => rw [hrest] at h; cases h
  | cons mark cs =>
      rw [hrest] at h
      obtain ⟨hmark, htail⟩ := Option.ite_none_right_eq_some.1 h
      obtain ⟨pieces, d, hpieces, hd, hpos⟩ := exists_stringPieces place (c := c.takeRaw 1)
        ((c.takeRaw 1).rest.length + 1) (Nat.lt_succ_self _) (by rw [Cursor.takeRaw, hrest]; exact htail)
      rw [pos_takeRaw_add, hd, Text.byteLength_cons] at hpos
      have hrun : stringLiteral place c = some (.mk .string .plain c.pos (d.take 1).stop 0 pieces, d.take 1) := by
        rw [stringLiteral, peek_bind, hrest, Token.ofChars_quote hmark]
        dsimp only
        rw [here_bind, modify_bind, bind_apply]
        have hrepeat : repeatUntil (atChar mark) (stringPiece mark) place (c.takeRaw 1) = some (pieces, d) :=
          hpieces
        exact congrArg (Option.bind · _) hrepeat
      have hstop : (d.take 1).stop = d.pos + mark.utf8Size := by
        change d.pos + Text.byteLength (d.rest.take 1) = _
        rw [hd]
        rfl
      have hbehind : (d.take 1).behind = rest := by
        change d.rest.drop 1 = rest
        rw [hd]
        rfl
      refine ⟨_, _, hrun, rfl, rfl, ?_, hbehind⟩
      change (d.take 1).stop + Text.byteLength rest = _
      rw [hstop, ← hrest]
      omega

/-! ### Strings of a line -/

/-- Characters that open a string, a template, a comment, a regular expression or an escape, and the line
ends beyond ASCII. -/
def codeBreakers : List Char :=
  ['"', '\'', '\x60', '/', '\\', '\u2028', '\u2029']

/-- Characters that may stand between the strings of a line. -/
def isCode (c : Char) : Bool :=
  0x20 ≤ c.toNat && c ∉ codeBreakers

/-- The strings of a line have the given values, from left to right. -/
inductive HasStrings : List Char → List (List Nat) → Prop
  | none {cs : List Char} : cs.all isCode = true → HasStrings cs []
  | string {code cs rest : List Char} {value : List Nat} {values : List (List Nat)} :
      code.all isCode = true → stringValue? cs = some (value, rest) → HasStrings rest values →
      HasStrings (code ++ cs) (value :: values)

/-- A string starts with a quote. -/
theorem exists_cons_of_stringValue? {cs rest : List Char} {value : List Nat}
    (h : stringValue? cs = some (value, rest)) : ∃ mark tail, cs = mark :: tail ∧ isCode mark = false := by
  cases cs with
  | nil => cases h
  | cons mark tail =>
      obtain ⟨hmark, -⟩ := Option.ite_none_right_eq_some.1 h
      exact ⟨mark, tail, rfl, by rcases hmark with rfl | rfl <;> decide⟩

theorem not_all_isCode_append {cs rest : List Char} {value : List Nat} (code : List Char)
    (h : stringValue? cs = some (value, rest)) : (code ++ cs).all isCode ≠ true := by
  obtain ⟨mark, tail, rfl, hmark⟩ := exists_cons_of_stringValue? h
  simp [hmark]

/-- Where the first string of a line starts. -/
theorem takeWhile_isCode_append {code cs rest : List Char} {value : List Nat} (hcode : code.all isCode = true)
    (h : stringValue? cs = some (value, rest)) : (code ++ cs).takeWhile isCode = code := by
  obtain ⟨mark, tail, rfl, hmark⟩ := exists_cons_of_stringValue? h
  rw [List.takeWhile_append_of_pos (List.all_eq_true.1 hcode), List.takeWhile_cons_of_neg (by simp [hmark]),
    List.append_nil]

/-- The strings of a line are determined. -/
theorem HasStrings.unique {cs : List Char} {values values' : List (List Nat)} (h : HasStrings cs values)
    (h' : HasStrings cs values') : values = values' := by
  induction h generalizing values' with
  | none hcode =>
      cases h' with
      | none => rfl
      | @string code _ _ _ _ _ hstring _ => exact absurd hcode (not_all_isCode_append code hstring)
  | @string code cs rest value values hcode hstring hrest ih =>
      have hstart := takeWhile_isCode_append hcode hstring
      generalize hline : code ++ cs = line at h' hstart
      cases h' with
      | none hcode' => exact absurd (hline ▸ hcode') (not_all_isCode_append code hstring)
      | @string code' cs' rest' value' values' hcode' hstring' hrest' =>
          rw [takeWhile_isCode_append hcode' hstring'] at hstart
          subst hstart
          obtain rfl : cs = cs' := List.append_cancel_left hline
          rw [hstring] at hstring'
          cases hstring'
          rw [ih hrest']

end Script

end ReactiveTemplate
