/-
**Lines and columns.**

The position of an offset is found by counting the line feeds in front of it and the characters behind the
last of them, and the line that a fault is shown with by going from the offset to the line feeds on both
sides.  This module compares both with the text as a list of lines.  A line number and a column say how many
characters stand in front, the line feeds included, and different offsets of a text have different line
numbers or columns.

Main definitions:

* `ReactiveTemplate.Text.lines`, `ReactiveTemplate.Text.lineStart` — the lines of a text, and how many
  characters stand before one;
* `ReactiveTemplate.Position.LiesOn` — the line, the column and the offset of a position agree;
* `ReactiveTemplate.Fault.ofMarkup` — faults of the markup itself.

Main results:

* `ReactiveTemplate.Position.LiesOn.offset_lt_iff` — offsets are in the order of lines and columns;
* `ReactiveTemplate.liesOn_ofOffset` — the position of an offset lies on the line that is shown with it;
* `ReactiveTemplate.positions_are_exact` — **positions are exact**.
-/

import Mathlib.Algebra.Ring.Nat
import ReactiveTemplate.Proofs.Markup.Progress

set_option relaxedAutoImplicit false
set_option autoImplicit false

namespace ReactiveTemplate

namespace Text

/-! ### Lines -/

/-- The lines of a text: what stands between its line feeds. -/
def lines (cs : List Char) : List (List Char) :=
  cs.splitOn '\n'

/-- How many characters stand before a line, counted from zero.  Each line before it has a line feed. -/
def lineStart (cs : List Char) (k : Nat) : Nat :=
  (((lines cs).take k).map fun line => line.length + 1).sum

theorem lines_newline (cs ds : List Char) : lines (cs ++ '\n' :: ds) = lines cs ++ lines ds :=
  List.splitOn_append_cons_self cs ds

theorem lines_cons_of_ne {c : Char} (h : c ≠ '\n') (cs : List Char) :
    lines (c :: cs) = (lines cs).modifyHead (List.cons c) := by
  rw [lines, List.splitOn_cons_eq_if_modifyHead, if_neg (by simpa using h)]
  rfl

theorem exists_lines_eq_cons (cs : List Char) : ∃ rest, lines cs = firstLine cs :: rest := by
  induction cs with
  | nil => exact ⟨[], rfl⟩
  | cons c cs ih =>
      by_cases hc : c = '\n'
      · subst hc
        exact ⟨lines cs, lines_newline [] cs⟩
      · obtain ⟨rest, hrest⟩ := ih
        exact ⟨rest, by simp [lines_cons_of_ne hc, hrest, firstLine, hc]⟩

/-- There is one more line than there are line feeds. -/
theorem length_lines (cs : List Char) : (lines cs).length = cs.count '\n' + 1 := by
  induction cs with
  | nil => rfl
  | cons c cs ih =>
      by_cases hc : c = '\n'
      · subst hc
        have hlines : lines ('\n' :: cs) = [] :: lines cs := lines_newline [] cs
        rw [hlines, List.length_cons, ih, List.count_cons_self]
      · rw [lines_cons_of_ne hc, List.length_modifyHead, ih, List.count_cons_of_ne hc]

/-- The lines of a text with a line feed behind each have one character more than the text. -/
theorem sum_lines (cs : List Char) : ((lines cs).map fun line => line.length + 1).sum = cs.length + 1 := by
  induction cs with
  | nil => rfl
  | cons c cs ih =>
      by_cases hc : c = '\n'
      · subst hc
        have hlines : lines ('\n' :: cs) = [] :: lines cs := lines_newline [] cs
        rw [hlines, List.map_cons, List.sum_cons, ih, List.length_cons]
        simp only [List.length_nil]
        omega
      · obtain ⟨rest, hrest⟩ := exists_lines_eq_cons cs
        rw [hrest, List.map_cons, List.sum_cons] at ih
        rw [lines_cons_of_ne hc, hrest, List.modifyHead_cons, List.map_cons, List.sum_cons, List.length_cons,
          List.length_cons]
        omega

theorem lineStart_succ {cs line : List Char} {k : Nat} (h : (lines cs)[k]? = some line) :
    lineStart cs (k + 1) = lineStart cs k + (line.length + 1) := by
  obtain ⟨hk, rfl⟩ := List.getElem?_eq_some_iff.1 h
  rw [lineStart, List.take_succ_eq_append_getElem hk, List.map_append, List.sum_append, lineStart]
  simp

theorem lineStart_le {cs : List Char} {k k' : Nat} (h : k ≤ k') : lineStart cs k ≤ lineStart cs k' := by
  obtain ⟨n, rfl⟩ := Nat.exists_eq_add_of_le h
  rw [lineStart, lineStart, List.take_add, List.map_append, List.sum_append]
  exact Nat.le_add_right _ _

/-! ### The last line in front of an offset -/

theorem newline_not_mem_lastLine (cs : List Char) : '\n' ∉ lastLine cs := by
  intro h
  have hne := List.mem_takeWhile_imp (List.mem_reverse.1 h)
  simp at hne

/-- A text is its last line, or there is a line feed in front of its last line. -/
theorem eq_lastLine_or (cs : List Char) : cs = lastLine cs ∨ ∃ before, cs = before ++ '\n' :: lastLine cs := by
  have hsplit : cs = (cs.reverse.dropWhile (· ≠ '\n')).reverse ++ lastLine cs := by
    rw [lastLine, ← List.reverse_append, List.takeWhile_append_dropWhile, List.reverse_reverse]
  cases hrest : cs.reverse.dropWhile (· ≠ '\n') with
  | nil =>
      rw [hrest] at hsplit
      exact .inl hsplit
  | cons c rest =>
      have hstop := List.head?_dropWhile_not (· ≠ '\n') cs.reverse
      rw [hrest] at hstop
      obtain rfl : c = '\n' := by simpa using hstop
      rw [hrest] at hsplit
      exact .inr ⟨rest.reverse, by simpa using hsplit⟩

theorem firstLine_append {cs : List Char} (h : '\n' ∉ cs) (ds : List Char) :
    firstLine (cs ++ ds) = cs ++ firstLine ds :=
  List.takeWhile_append_of_pos fun c hc => by
    rw [decide_eq_true_eq]
    rintro rfl
    exact h hc

/-- The line of an offset is the one that is shown, and what stands before it and the part of it in front of
the offset make the offset. -/
theorem lines_at {cs : List Char} {n : Nat} (h : n ≤ cs.length) :
    (lines cs)[(cs.take n).count '\n']? = some (lineAt cs n) ∧
      lineStart cs ((cs.take n).count '\n') + (lastLine (cs.take n)).length = n := by
  have hlength : (cs.take n).length = n := List.length_take_of_le h
  have hno := newline_not_mem_lastLine (cs.take n)
  obtain ⟨rest, hrest⟩ := exists_lines_eq_cons (lastLine (cs.take n) ++ cs.drop n)
  rw [firstLine_append hno] at hrest
  rcases eq_lastLine_or (cs.take n) with hline | ⟨before, hbefore⟩
  · -- the offset is on the first line
    have hcount : (cs.take n).count '\n' = 0 := by
      rw [hline]
      exact List.count_eq_zero.2 hno
    have hcs : lastLine (cs.take n) ++ cs.drop n = cs := by rw [← hline, List.take_append_drop]
    rw [hcs] at hrest
    rw [hcount]
    refine ⟨?_, ?_⟩
    · rw [hrest]
      rfl
    · rw [← hline, hlength]
      exact Nat.zero_add n
  · have hcount : (cs.take n).count '\n' = (lines before).length := by
      rw [hbefore, List.count_append, List.count_cons_self, List.count_eq_zero.2 hno, length_lines]
    have hcs : lines cs = lines before ++ lines (lastLine (cs.take n) ++ cs.drop n) := by
      rw [← lines_newline, ← List.cons_append, ← List.append_assoc, ← hbefore, List.take_append_drop]
    have hsum : lineStart cs (lines before).length = before.length + 1 := by
      rw [lineStart, hcs, List.take_left, sum_lines]
    rw [hcount, hsum]
    refine ⟨?_, ?_⟩
    · rw [hcs, List.getElem?_append_right (Nat.le_refl _), Nat.sub_self, hrest]
      rfl
    · rw [hbefore, List.length_append, List.length_cons] at hlength
      omega

end Text

/-! ### Positions on lines -/

namespace Position

/-- A position lies on a line of a text: the line has its number, the column is on the line or right behind
it, and the offset is what stands before the line and in front of the column. -/
def LiesOn (p : Position) (cs line : List Char) : Prop :=
  ∃ k column : Nat, p.line = k + 1 ∧ p.column = column + 1 ∧ (Text.lines cs)[k]? = some line ∧
    column ≤ line.length ∧ p.offset = Text.lineStart cs k + column

variable {p q : Position} {cs u v : List Char}

theorem LiesOn.offset_lt_of_line_lt (hp : p.LiesOn cs u) (hq : q.LiesOn cs v) (h : p.line < q.line) :
    p.offset < q.offset := by
  obtain ⟨k, column, hline, -, hk, hcolumn, hoffset⟩ := hp
  obtain ⟨k', column', hline', -, -, -, hoffset'⟩ := hq
  have hsucc := Text.lineStart_succ hk
  have hle := @Text.lineStart_le cs (k + 1) k' (by omega)
  omega

/-- Positions of a text are in the order of their lines, and on one line in the order of their columns. -/
theorem LiesOn.offset_lt_iff (hp : p.LiesOn cs u) (hq : q.LiesOn cs v) :
    p.offset < q.offset ↔ p.line < q.line ∨ p.line = q.line ∧ p.column < q.column := by
  have hsame : p.line = q.line → (p.offset < q.offset ↔ p.column < q.column) := by
    intro hline
    obtain ⟨k, column, hp, hcolumn, -, -, hoffset⟩ := hp
    obtain ⟨k', column', hq, hcolumn', -, -, hoffset'⟩ := hq
    obtain rfl : k = k' := by omega
    omega
  rcases Int.lt_trichotomy p.line q.line with hlt | heq | hgt
  · have hoffset := hp.offset_lt_of_line_lt hq hlt
    omega
  · have hoffset := hsame heq
    omega
  · have hoffset := hq.offset_lt_of_line_lt hp hgt
    omega

/-- An offset has one line and one column. -/
theorem LiesOn.unique (hp : p.LiesOn cs u) (hq : q.LiesOn cs v) (h : p.offset = q.offset) :
    p.line = q.line ∧ p.column = q.column ∧ u = v := by
  have hpq := hp.offset_lt_iff hq
  have hqp := hq.offset_lt_iff hp
  have hline : p.line = q.line := by omega
  refine ⟨hline, by omega, ?_⟩
  obtain ⟨k, -, hk, -, hu, -⟩ := hp
  obtain ⟨k', -, hk', -, hv, -⟩ := hq
  obtain rfl : k = k' := by omega
  exact Option.some.inj (hu.symm.trans hv)

end Position

/-! ### Positions of offsets -/

theorem offset_ofOffset (text file : String) (offset : Int) :
    (Position.ofOffset text offset file).offset = max 0 (min offset text.length) := by
  simp only [Position.ofOffset, String.length_toList]
  omega

/-- The position of an offset lies on the line that is shown with it. -/
theorem liesOn_ofOffset (text file : String) (offset : Int) :
    (Position.ofOffset text offset file).LiesOn text.toList
      (Text.lineAt text.toList (min offset.toNat text.toList.length)) := by
  obtain ⟨hline, hoffset⟩ := Text.lines_at (Nat.min_le_right offset.toNat text.toList.length)
  refine ⟨_, _, rfl, rfl, hline, ?_, ?_⟩
  · rw [Text.lineAt, List.length_append]
    exact Nat.le_add_right _ _
  · exact congrArg Int.ofNat hoffset.symm

/-- Faults that the reader finds in the markup itself, not in an expression or in the script. -/
def Fault.ofMarkup : Fault → Bool
  | .emptyExpression | .notOneExpression _ | .unbalancedCloser _ | .wrongCloser _ _
  | .unfinishedExpression _ | .unexpectedScript _ _ => false
  | _ => true

theorem showsLine_of_ofMarkup {fault : Fault} (h : fault.ofMarkup = true) : fault.showsLine = true := by
  cases fault <;> first | rfl | cases h

/-- A fault of a template is reported at its place. -/
theorem liesOn_of_parse_error {template filename : String} {l : Located}
    (h : Document.parse template filename = .error l) :
    l.offset ≤ template.length ∧ (Position.ofOffset template l.offset filename).offset = l.offset ∧
      (Position.ofOffset template l.offset filename).LiesOn template.toList
        (Text.lineAt template.toList l.offset) := by
  have hread : readFrom .initial 0 0 template.toList = .error l := by
    rw [Document.parse] at h
    cases hread : readFrom .initial 0 0 template.toList with
    | error l' => rw [hread] at h; cases h; rfl
    | ok s => rw [hread] at h; cases h
  have hle : l.offset ≤ template.toList.length := by simpa using (in_of_readFrom_error hread).2
  have hon := liesOn_ofOffset template filename l.offset
  rw [Int.toNat_natCast, Nat.min_eq_left hle] at hon
  rw [String.length_toList] at hle
  refine ⟨hle, ?_, hon⟩
  rw [offset_ofOffset]
  omega

/-- **Positions are exact.**  A fault of the markup is reported with an offset in the template, with the number
of the line and the column that make up this offset, and with the line itself.  The position of any offset of
any text is that of the offset moved to the nearer end of the text if it is outside, and no other line and
column make up that offset.  So offsets of a text are in the order of their positions, line first and column
second, and no two of them have the same position. -/
theorem positions_are_exact :
    (∀ (template filename : String) (l : Located), Document.parse template filename = .error l →
      l.fault.ofMarkup = true →
      let report := l.diagnose template filename
      report.position.offset = l.offset ∧ 0 ≤ report.position.offset ∧
        report.position.offset ≤ template.length ∧
        ∃ line, report.position.LiesOn template.toList line ∧ report.sourceLine = String.ofList line) ∧
    (∀ (text file : String) (offset : Int),
      let p := Position.ofOffset text offset file
      p.offset = max 0 (min offset text.length) ∧
        ∃ line, p.LiesOn text.toList line ∧
          ∀ (q : Position) (line' : List Char), q.offset = p.offset → q.LiesOn text.toList line' →
            q.line = p.line ∧ q.column = p.column ∧ line' = line) ∧
    ∀ (text file : String) (i j : Int), 0 ≤ i → i ≤ text.length → 0 ≤ j → j ≤ text.length →
      let p := Position.ofOffset text i file
      let q := Position.ofOffset text j file
      (i < j ↔ p.line < q.line ∨ p.line = q.line ∧ p.column < q.column) ∧
        (i ≠ j → (p.line, p.column) ≠ (q.line, q.column)) := by
  refine ⟨?_, ?_, ?_⟩
  · intro template filename l hparse hmarkup report
    obtain ⟨hle, hoffset, hon⟩ := liesOn_of_parse_error hparse
    have hposition : report.position = Position.ofOffset template l.offset filename := rfl
    have hline : report.sourceLine = String.ofList (Text.lineAt template.toList l.offset) :=
      if_pos (showsLine_of_ofMarkup hmarkup)
    rw [hposition, hoffset]
    exact ⟨rfl, by omega, by omega, _, hon, hline⟩
  · intro text file offset p
    exact ⟨offset_ofOffset text file offset, _, liesOn_ofOffset text file offset,
      fun q line' hoffset hq => hq.unique (liesOn_ofOffset text file offset) hoffset⟩
  · intro text file i j hi hi' hj hj' p q
    have hp : p.offset = i := by rw [offset_ofOffset]; omega
    have hq : q.offset = j := by rw [offset_ofOffset]; omega
    have hpon : p.LiesOn text.toList _ := liesOn_ofOffset text file i
    have hqon : q.LiesOn text.toList _ := liesOn_ofOffset text file j
    have hforth := hpon.offset_lt_iff hqon
    have hback := hqon.offset_lt_iff hpon
    rw [hp, hq] at hforth hback
    refine ⟨hforth, fun hne hsame => hne ?_⟩
    obtain ⟨hline, hcolumn⟩ := Prod.mk.inj hsame
    omega

/-- A template that ends behind a line feed: the fault is at the start of an empty line. -/
theorem positions_are_exact_last_line :
    ∃ l, Document.parse "<p>\n" "page" = .error l ∧ l.fault.ofMarkup = true ∧
      (l.diagnose "<p>\n" "page").position.offset = 4 ∧
      ∃ line, (l.diagnose "<p>\n" "page").position.LiesOn "<p>\n".toList line ∧
        (l.diagnose "<p>\n" "page").sourceLine = String.ofList line := by
  have hparse : Document.parse "<p>\n" "page" = .error ⟨.unclosedElement "p", 4⟩ := rfl
  obtain ⟨hoffset, -, -, hline⟩ := positions_are_exact.1 _ _ _ hparse rfl
  exact ⟨_, hparse, rfl, hoffset, hline⟩

end ReactiveTemplate
