/-
Blank characters, and trimming a text of them.

* `Text.isBlank` — the characters that count as white space in markup and in options;
* `Text.trim` — a text without the blanks at both ends;
* `Text.allBlank` — whether nothing but blanks stands in a text.
-/

set_option relaxedAutoImplicit false
set_option autoImplicit false

namespace ReactiveTemplate.Text

/-- The white space of Unicode together with the four information separators
`U+001C`–`U+001F`. Zero-width characters such as `U+200B` and `U+FEFF` are not blank. -/
def isBlank (c : Char) : Bool :=
  let n := c.toNat
  (0x9 ≤ n && n ≤ 0xD) || (0x1C ≤ n && n ≤ 0x20) || n == 0x85 || n == 0xA0 || n == 0x1680 ||
    (0x2000 ≤ n && n ≤ 0x200A) || n == 0x2028 || n == 0x2029 || n == 0x202F || n == 0x205F ||
    n == 0x3000

/-- A text without the blanks it starts with. -/
def trimStart (cs : List Char) : List Char :=
  cs.dropWhile isBlank

/-- A text without the blanks it ends with. -/
def trimEnd (cs : List Char) : List Char :=
  (cs.reverse.dropWhile isBlank).reverse

/-- A text without the blanks at either end. -/
def trim (cs : List Char) : List Char :=
  trimEnd (trimStart cs)

/-- Nothing but blanks stands in the text; the empty text qualifies. -/
def allBlank (cs : List Char) : Bool :=
  cs.all isBlank

@[simp] theorem trimStart_nil : trimStart [] = [] := rfl

@[simp] theorem trim_nil : trim [] = [] := rfl

theorem trimStart_eq_nil_iff {cs : List Char} : trimStart cs = [] ↔ allBlank cs = true := by
  induction cs with
  | nil => simp [allBlank]
  | cons c cs ih =>
    unfold trimStart allBlank at ih ⊢
    by_cases h : isBlank c = true
    · rw [List.dropWhile_cons_of_pos h, ih, List.all_cons, h, Bool.true_and]
    · simp [h]

end ReactiveTemplate.Text
