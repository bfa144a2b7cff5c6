/-
Offsets in a text counted in the bytes of its UTF-8 form.

A text is a list of characters. Syntax trees address it by byte offsets, templates by character
offsets; this module relates the two.

* `Text.byteLength` — how many bytes a text takes;
* `Text.bytes`, `Text.decode?` — the bytes themselves, and the text they spell, if any;
* `Text.charsBefore` — how many characters begin before a byte offset;
* `Text.byteSlice` — the characters that begin in a range of byte offsets.
-/

set_option relaxedAutoImplicit false
set_option autoImplicit false

namespace ReactiveTemplate.Text

/-- The number of bytes that a text takes in UTF-8. -/
def byteLength : List Char → Nat
  | [] => 0
  | c :: cs => c.utf8Size + byteLength cs

/-- The UTF-8 form of a text. -/
def bytes (cs : List Char) : List UInt8 :=
  cs.flatMap String.utf8EncodeChar

/-- The text that a sequence of bytes spells in UTF-8; `none` when it spells none. -/
def decode? (bs : List UInt8) : Option String :=
  String.fromUTF8? ⟨bs.toArray⟩

/-- How many characters begin before byte offset `b`. A character that `b` cuts counts. -/
def charsBefore : List Char → Nat → Nat
  | [], _ => 0
  | c :: cs, b => if b = 0 then 0 else charsBefore cs (b - c.utf8Size) + 1

/-- The characters that begin at byte offset `b` or later. -/
def dropBytes : List Char → Nat → List Char
  | [], _ => []
  | c :: cs, b => if b = 0 then c :: cs else dropBytes cs (b - c.utf8Size)

/-- The characters that begin before byte offset `b`. -/
def takeBytes : List Char → Nat → List Char
  | [], _ => []
  | c :: cs, b => if b = 0 then [] else c :: takeBytes cs (b - c.utf8Size)

/-- The characters that begin at `start` or later and before `stop`, both in bytes. -/
def byteSlice (cs : List Char) (start stop : Nat) : List Char :=
  takeBytes (dropBytes cs start) (stop - start)

@[simp] theorem byteLength_nil : byteLength [] = 0 := rfl

@[simp] theorem byteLength_cons (c : Char) (cs : List Char) :
    byteLength (c :: cs) = c.utf8Size + byteLength cs := rfl

@[simp] theorem byteLength_append (cs ds : List Char) :
    byteLength (cs ++ ds) = byteLength cs + byteLength ds := by
  induction cs with
  | nil => simp
  | cons c cs ih => simp [ih, Nat.add_assoc]

@[simp] theorem length_bytes (cs : List Char) : (bytes cs).length = byteLength cs := by
  induction cs with
  | nil => rfl
  | cons c cs ih => simpa [bytes] using ih

/-- Cutting a text behind a part of it gives the rest. -/
@[simp] theorem dropBytes_append (cs ds : List Char) :
    dropBytes (cs ++ ds) (byteLength cs) = ds := by
  induction cs with
  | nil => cases ds <;> simp [dropBytes]
  | cons c cs ih =>
    have h : 0 < c.utf8Size := c.utf8Size_pos
    simp only [List.cons_append, dropBytes, byteLength_cons]
    rw [if_neg (by omega), Nat.add_sub_cancel_left]
    exact ih

/-- Taking as many bytes as the first part has gives that part. -/
@[simp] theorem takeBytes_append (cs ds : List Char) :
    takeBytes (cs ++ ds) (byteLength cs) = cs := by
  induction cs with
  | nil => cases ds <;> simp [takeBytes]
  | cons c cs ih =>
    have h : 0 < c.utf8Size := c.utf8Size_pos
    simp only [List.cons_append, takeBytes, byteLength_cons]
    rw [if_neg (by omega), Nat.add_sub_cancel_left, ih]

/-- A slice between two characters is the text between them. -/
theorem byteSlice_append (cs ds es : List Char) :
    byteSlice (cs ++ (ds ++ es)) (byteLength cs) (byteLength cs + byteLength ds) = ds := by
  simp [byteSlice]

/-- Counting characters up to a boundary gives the number of characters before it. -/
theorem charsBefore_append (cs ds : List Char) :
    charsBefore (cs ++ ds) (byteLength cs) = cs.length := by
  induction cs with
  | nil => cases ds <;> simp [charsBefore]
  | cons c cs ih =>
    have h : 0 < c.utf8Size := c.utf8Size_pos
    simp only [List.cons_append, charsBefore, byteLength_cons]
    rw [if_neg (by omega), Nat.add_sub_cancel_left, ih, List.length_cons]

end ReactiveTemplate.Text
