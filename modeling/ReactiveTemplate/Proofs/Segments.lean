/-
**Closed segments.**

The scan that looks for the end of an expression is one loop over characters with a stack of closers.
This module gives the grammar behind it.  Script outside of templates is a sequence of plain characters,
strings and comments, the text of a template one of characters and escapes; brackets, templates and the
substitutions in templates enclose segments.  How far a piece reaches, and whether a slash is a plain
character, depends on the text behind it, so each rule speaks of a text and of the text that follows it.

Main definitions:

* `ReactiveTemplate.Script.Piece`, `ReactiveTemplate.Script.Opening` — what a segment is made of, and
  what opens a segment inside of it;
* `ReactiveTemplate.Script.Segment` — segments in which all that is opened is closed;
* `ReactiveTemplate.Script.Pending` — how a segment may start, with the closers that are still to come;
* `ReactiveTemplate.Script.Stops` — what cannot go on with a segment, and what the scan answers there.

Main results:

* `ReactiveTemplate.Script.Pending.segment_append` — the closers that are still to come make the start of
  a segment a whole one;
* `ReactiveTemplate.Script.scanEnd_eq_iff` — the scan stops where the start of a segment meets what
  cannot go on with it;
* `ReactiveTemplate.Script.scanEnd_recognises_segments` — the brace that is found ends a closed segment,
  and each fault says which closer is missing and where.
-/

import Mathlib.Data.List.TakeWhile
import ReactiveTemplate.Script.Segment

set_option relaxedAutoImplicit false
set_option autoImplicit false

namespace ReactiveTemplate.Script

/-! ### The grammar -/

/-- Where a character stands: in script, or in the text of a template. -/
inductive Mode where
  | code
  | template
  deriving DecidableEq, Repr

/-- The text of a block comment behind its opening, up to the first mark that closes it. -/
inductive BlockTail : List Char → Prop
  | ends : BlockTail ['*', '/']
  | more {c : Char} {cs : List Char} : ¬(c = '*' ∧ cs.head? = some '/') → BlockTail cs →
      BlockTail (c :: cs)

/-- The quotes of strings. -/
def isQuote (c : Char) : Bool :=
  c == '"' || c == '\''

/-- Characters of script that neither open nor close anything. -/
def isPlain (c : Char) : Bool :=
  !isQuote c && c != templateMark && (closerOf? c).isNone && !isCloser c

/-- A piece of a segment: `Piece m x s` says that `x` is one where `s` is the rest of the text.  A
comment or an escape may be cut off by the end of the text, and so may a string, whose extent is that of
`stringEnd`. -/
inductive Piece : Mode → List Char → List Char → Prop
  | plain {c : Char} {s : List Char} : isPlain c = true →
      (c = '/' → s.head? ≠ some '/' ∧ s.head? ≠ some '*') → Piece .code [c] s
  | string {mark : Char} {tail s : List Char} : isQuote mark = true →
      stringEnd (mark :: (tail ++ s)) 0 = 1 + tail.length → Piece .code (mark :: tail) s
  | lineComment {cs s : List Char} : '\n' ∉ cs → s = [] ∨ s.head? = some '\n' →
      Piece .code ('/' :: '/' :: cs) s
  | blockComment {cs s : List Char} : BlockTail cs → Piece .code ('/' :: '*' :: cs) s
  | cutComment {cs : List Char} : (∀ tail, tail <+: cs → ¬BlockTail tail) →
      Piece .code ('/' :: '*' :: cs) []
  | letter {c : Char} {s : List Char} : c ≠ '\\' → c ≠ templateMark →
      (c = '$' → s.head? ≠ some '{') → Piece .template [c] s
  | escape {c : Char} {s : List Char} : Piece .template ['\\', c] s
  | cutEscape : Piece .template ['\\'] []

/-- What opens a segment inside of another one: `Opening m x inner closer` says that `x` does so, that
the new segment is of the mode `inner`, and what closes it. -/
inductive Opening : Mode → List Char → Mode → Char → Prop
  | bracket {c closer : Char} : closerOf? c = some closer → Opening .code [c] .code closer
  | template : Opening .code [templateMark] .template templateMark
  | substitution : Opening .template ['$', '{'] .code '}'

/-- A segment in which all that is opened is closed: `Segment m s next` says that `s` is one where `next`
is the rest of the text. -/
inductive Segment : Mode → List Char → List Char → Prop
  | nil {m : Mode} {next : List Char} : Segment m [] next
  | piece {m : Mode} {x s next : List Char} : Piece m x (s ++ next) → Segment m s next →
      Segment m (x ++ s) next
  | nest {m inner : Mode} {x t s next : List Char} {closer : Char} : Opening m x inner closer →
      Segment inner t (closer :: (s ++ next)) → Segment m s next →
      Segment m (x ++ (t ++ closer :: s)) next

/-- The start of a segment, with the closers that are still to come, the innermost one first. -/
inductive Pending : Mode → List Char → List Char → List Char → Prop
  | inside {m : Mode} {s next : List Char} : Segment m s next → Pending m [] s next
  | opened {m inner : Mode} {s x t closers next : List Char} {closer : Char} :
      Segment m s (x ++ (t ++ next)) → Opening m x inner closer → Pending inner closers t next →
      Pending m (closers ++ [closer]) (s ++ (x ++ t)) next

/-- What the scan answers at offset `n` where it stops before the text `t`, given the closers that are
still to come. -/
inductive Stops : List Char → List Char → Nat → Except Located Nat → Prop
  | closed {t : List Char} {n : Nat} : Stops [] ('}' :: t) n (.ok n)
  | unbalanced {c : Char} {t : List Char} {n : Nat} : c = ')' ∨ c = ']' →
      Stops [] (c :: t) n (.error ⟨.unbalancedCloser c, n⟩)
  | wrong {c closer : Char} {closers t : List Char} {n : Nat} : isCloser c = true →
      closer ≠ templateMark → closer ≠ c →
      Stops (closer :: closers) (c :: t) n (.error ⟨.wrongCloser closer c, n⟩)
  | ended {closers : List Char} {n : Nat} :
      Stops closers [] n (.error ⟨.unfinishedExpression (closers.headD '}'), n⟩)

/-- The mode in which the scan goes on, given the closers that are still to come. -/
def modeOf (closers : List Char) : Mode :=
  if closers.head? = some templateMark then .template else .code

/-- What closes a segment. -/
def Closes (c : Char) : Prop :=
  isCloser c = true ∨ c = templateMark

variable {m inner : Mode} {c closer mark : Char} {x s t cs tail next closers closers' : List Char}
  {offset n : Nat}

theorem Opening.closes (h : Opening m x inner closer) : Closes closer := by
  cases h with
  | @bracket c _ hc =>
      unfold closerOf? at hc
      split at hc
      case h_4 => simp at hc
      all_goals
        obtain rfl := Option.some.inj hc
        exact .inl rfl
  | template => exact .inr rfl
  | substitution => exact .inl rfl

theorem Opening.modeOf_cons (h : Opening m x inner closer) : modeOf (closer :: closers) = inner := by
  cases h with
  | @bracket c _ hc =>
      unfold closerOf? at hc
      split at hc
      case h_4 => simp at hc
      all_goals
        obtain rfl := Option.some.inj hc
        simp [modeOf, templateMark]
  | template => rfl
  | substitution => rfl

theorem pending_nil_iff : Pending m [] s next ↔ Segment m s next := by
  refine ⟨fun h => ?_, .inside⟩
  generalize hnil : ([] : List Char) = closers at h
  cases h with
  | inside h => exact h
  | opened => simp at hnil

theorem modeOf_eq_template_iff : modeOf closers = .template ↔ ∃ below, closers = templateMark :: below := by
  rw [← List.head?_eq_some_iff, modeOf]
  split <;> simp_all

/-! ### Lengths of strings and comments -/

theorem stringTailLength_le (mark : Char) (cs : List Char) : stringTailLength mark cs ≤ cs.length := by
  fun_induction stringTailLength mark cs with
  | case1 c cs ih => simpa using ih
  | case2 => simp
  | case3 c cs _ _ ih => simpa using ih
  | case4 => simp

theorem lineCommentLength_append (h : '\n' ∉ cs) (hs : s = [] ∨ s.head? = some '\n') :
    lineCommentLength ('/' :: (cs ++ s)) = cs.length + 1 := by
  have hrun : (cs ++ s).takeWhile (fun c => decide (c ≠ '\n')) = cs := by
    rw [List.takeWhile_append_of_pos fun d hd => by simpa using ne_of_mem_of_not_mem hd h]
    rcases hs with rfl | hs
    · simp
    · obtain ⟨s, rfl⟩ := List.head?_eq_some_iff.1 hs
      simp
  rw [lineCommentLength, List.takeWhile_cons_of_pos (by decide), hrun, List.length_cons]

theorem blockCommentLength_append (h : BlockTail tail) (s : List Char) :
    blockCommentLength (tail ++ s) = tail.length := by
  induction h with
  | ends => rfl
  | @more c cs hc hcs ih =>
      rw [List.cons_append, blockCommentLength, ih]
      · rfl
      · rintro d rfl hd
        cases hcs <;> simp_all

/-- A block comment that nothing closes takes the whole text. -/
theorem blockCommentLength_of_endless (h : ∀ tail, tail <+: cs → ¬BlockTail tail) :
    blockCommentLength cs = cs.length := by
  fun_induction blockCommentLength cs with
  | case1 cs => exact absurd .ends (h _ (by simp))
  | case2 c cs hc ih =>
      have hrest : blockCommentLength cs = cs.length := by
        refine ih fun tail htail hends => h (c :: tail) (by simpa using htail) (hends.more ?_)
        rintro ⟨rfl, hhead⟩
        obtain ⟨s, rfl⟩ := htail
        cases tail with
        | nil => simp at hhead
        | cons d tail => exact hc (tail ++ s) rfl (by simp_all)
      simp [hrest]
  | case3 => rfl

/-! ### One step of the scan -/

theorem scanFrom_skip (xs : List Char) :
    scanFrom closers xs.length offset (xs ++ t) = scanFrom closers 0 (offset + xs.length) t := by
  induction xs generalizing offset with
  | nil => simp
  | cons d xs ih =>
      rw [List.length_cons, List.cons_append, scanFrom, ih]
      congr 1
      omega

/-- A step that passes over the rest of a piece. -/
theorem scanFrom_goOn (xs : List Char) (h : scanStep closers c (xs ++ t) = .goOn closers' xs.length) :
    scanFrom closers 0 offset (c :: (xs ++ t)) = scanFrom closers' 0 (offset + (c :: xs).length) t := by
  rw [scanFrom, h]
  simp only [scanFrom_skip, List.length_cons]
  congr 1
  omega

theorem scanStep_of_code (h : modeOf closers = .code) : scanStep closers c s = codeStep closers c s := by
  have hne : closers.head? ≠ some templateMark := fun heq => by simp [modeOf, heq] at h
  simp [scanStep, hne]

theorem scanStep_of_template (h : modeOf closers = .template) :
    scanStep closers c s = templateStep closers c s := by
  obtain ⟨below, rfl⟩ := modeOf_eq_template_iff.1 h
  simp [scanStep]

/-- A closing bracket is compared with the innermost closer that is still to come. -/
theorem codeStep_of_closer (h : isCloser c = true) : codeStep closers c s = closerStep closers c := by
  have hc : c = ')' ∨ c = ']' ∨ c = '}' := by simpa [isCloser, or_assoc] using h
  rcases hc with rfl | rfl | rfl <;> simp [codeStep, templateMark, closerOf?, isCloser]

theorem scanFrom_piece (h : Piece (modeOf closers) x t) :
    scanFrom closers 0 offset (x ++ t) = scanFrom closers 0 (offset + x.length) t := by
  generalize hm : modeOf closers = m at h
  cases h with
  | @plain c _ hc hslash =>
      refine scanFrom_goOn [] ?_
      rw [scanStep_of_code hm]
      simp only [isPlain, isQuote, Bool.and_eq_true, Bool.not_eq_true', Bool.or_eq_false_iff,
        bne_iff_ne, Option.isNone_iff_eq_none] at hc
      obtain ⟨⟨⟨hquote, hmark⟩, hopens⟩, hcloser⟩ := hc
      unfold codeStep
      rw [if_neg (by simp [hquote]), if_neg (by simpa using hmark), if_neg ?_, if_neg ?_, hopens]
      · simp [hcloser]
      · simpa using fun h => (hslash h).2
      · simpa using fun h => (hslash h).1
  | @string mark tail _ hmark htail =>
      refine scanFrom_goOn tail ?_
      have hlength : stringTailLength mark (tail ++ t) = tail.length := by
        simpa [stringEnd] using htail
      rw [scanStep_of_code hm, ← hlength]
      exact if_pos hmark
  | @lineComment cs _ hcs hline =>
      refine scanFrom_goOn ('/' :: cs) ?_
      rw [scanStep_of_code hm, List.cons_append, List.length_cons, ← lineCommentLength_append hcs hline]
      simp [codeStep, templateMark]
  | @blockComment cs _ htail =>
      refine scanFrom_goOn ('*' :: cs) ?_
      rw [scanStep_of_code hm, List.cons_append, List.length_cons, ← blockCommentLength_append htail t]
      simp [codeStep, templateMark, Nat.add_comm]
  | @cutComment cs hends =>
      refine scanFrom_goOn ('*' :: cs) ?_
      rw [scanStep_of_code hm, List.append_nil, List.length_cons, ← blockCommentLength_of_endless hends]
      simp [codeStep, templateMark, Nat.add_comm]
  | letter h₁ h₂ hdollar =>
      refine scanFrom_goOn [] ?_
      rw [scanStep_of_template hm]
      unfold templateStep
      rw [if_neg (by simpa using h₁), if_neg (by simpa using h₂), if_neg (by simpa using hdollar)]
      rfl
  | @escape c _ =>
      refine scanFrom_goOn [c] ?_
      rw [scanStep_of_template hm]
      simp [templateStep]
  | cutEscape =>
      simp [scanFrom, scanStep_of_template hm, templateStep]

theorem scanFrom_opening (h : Opening (modeOf closers) x inner closer) :
    scanFrom closers 0 offset (x ++ t) = scanFrom (closer :: closers) 0 (offset + x.length) t := by
  generalize hm : modeOf closers = m at h
  cases h with
  | @bracket c _ hc =>
      refine scanFrom_goOn [] ?_
      rw [scanStep_of_code hm]
      unfold closerOf? at hc
      split at hc
      case h_4 => simp at hc
      all_goals
        obtain rfl := Option.some.inj hc
        simp [codeStep, templateMark, closerOf?]
  | template =>
      refine scanFrom_goOn [] ?_
      rw [scanStep_of_code hm]
      simp [codeStep, templateMark]
  | substitution =>
      refine scanFrom_goOn ['{'] ?_
      rw [scanStep_of_template hm]
      simp [templateStep, templateMark]

theorem scanFrom_closer (h : Closes c) :
    scanFrom (c :: closers) 0 offset (c :: t) = scanFrom closers 0 (offset + 1) t := by
  refine scanFrom_goOn [] ?_
  by_cases hc : c = templateMark
  · subst hc
    rw [scanStep_of_template (by simp [modeOf])]
    simp [templateStep, templateMark]
  · rw [scanStep_of_code (by simp [modeOf, hc]), codeStep_of_closer (h.resolve_right hc)]
    simp [closerStep]

theorem Stops.scanFrom_eq {result : Except Located Nat} (h : Stops closers t offset result) :
    scanFrom closers 0 offset t = result := by
  cases h with
  | closed => rfl
  | @unbalanced c t _ hc =>
      have hcloser : isCloser c = true := by rcases hc with rfl | rfl <;> rfl
      have hne : ¬(c == '}') = true := by rcases hc with rfl | rfl <;> decide
      rw [scanFrom, scanStep_of_code rfl, codeStep_of_closer hcloser]
      simp only [closerStep, if_neg hne]
  | @wrong c closer closers t _ hc hmark hne =>
      rw [scanFrom, scanStep_of_code (by simp [modeOf, hmark]), codeStep_of_closer hc]
      simp [closerStep, hne]
  | ended => simp [scanFrom]

/-! ### What the scan makes of a segment -/

theorem Segment.scanFrom_eq (h : Segment m s next) (hm : modeOf closers = m) :
    scanFrom closers 0 offset (s ++ next) = scanFrom closers 0 (offset + s.length) next := by
  induction h generalizing closers offset with
  | nil => simp
  | @piece m x s next hpiece _ ih =>
      subst hm
      rw [List.append_assoc, scanFrom_piece hpiece, ih rfl, List.length_append, Nat.add_assoc]
  | @nest m inner x t s next closer hopen _ _ ih₁ ih₂ =>
      subst hm
      have happ : x ++ (t ++ closer :: s) ++ next = x ++ (t ++ closer :: (s ++ next)) := by simp
      rw [happ, scanFrom_opening hopen, ih₁ hopen.modeOf_cons, scanFrom_closer hopen.closes, ih₂ rfl]
      congr 1
      simp only [List.length_append, List.length_cons]
      omega

theorem Pending.scanFrom_eq {pending : List Char} (h : Pending m pending s next)
    (hm : modeOf closers = m) :
    scanFrom closers 0 offset (s ++ next) =
      scanFrom (pending ++ closers) 0 (offset + s.length) next := by
  induction h generalizing closers offset with
  | inside h => exact h.scanFrom_eq hm
  | @opened m inner s x t pending next closer hs hopen _ ih =>
      have happ : s ++ (x ++ t) ++ next = s ++ (x ++ (t ++ next)) := by simp
      rw [happ, hs.scanFrom_eq hm, scanFrom_opening (hm ▸ hopen), ih hopen.modeOf_cons]
      simp only [List.append_assoc, List.singleton_append, List.length_append, Nat.add_assoc]

/-! ### What the scan reads -/

/-- How a text goes on with closers that are still to come: it brings some of them, one after the other,
and then leaves new ones pending. -/
inductive Resumes : List Char → List Char → List Char → List Char → Prop
  | leaves {closers pending s next : List Char} : Pending (modeOf closers) pending s next →
      Resumes closers s next (pending ++ closers)
  | brings {closer : Char} {closers closers' s t next : List Char} :
      Segment (modeOf (closer :: closers)) s (closer :: (t ++ next)) → Resumes closers t next closers' →
      Resumes (closer :: closers) (s ++ closer :: t) next closers'

variable {pending : List Char}

theorem Pending.piece (hx : Piece m x (s ++ next)) (h : Pending m pending s next) :
    Pending m pending (x ++ s) next := by
  cases h with
  | inside h => exact .inside (.piece hx h)
  | @opened _ inner s y t pending _ closer hs hopen ht =>
      rw [List.append_assoc, List.append_assoc] at hx
      rw [← List.append_assoc]
      exact .opened (.piece hx hs) hopen ht

theorem Pending.nest (hx : Opening m x inner closer) (ht : Segment inner t (closer :: (s ++ next)))
    (h : Pending m pending s next) : Pending m pending (x ++ (t ++ closer :: s)) next := by
  cases h with
  | inside h => exact .inside (.nest hx ht h)
  | @opened _ inner' s y t' pending _ closer' hs hopen ht' =>
      have happ : x ++ (t ++ closer :: (s ++ (y ++ t'))) = x ++ (t ++ closer :: s) ++ (y ++ t') := by
        simp
      rw [List.append_assoc, List.append_assoc] at ht
      rw [happ]
      exact .opened (.nest hx ht hs) hopen ht'

theorem Resumes.piece (hx : Piece (modeOf closers) x (s ++ next)) (h : Resumes closers s next closers') :
    Resumes closers (x ++ s) next closers' := by
  cases h with
  | leaves h => exact .leaves (h.piece hx)
  | @brings closer closers _ s t _ hs ht =>
      rw [List.append_assoc, List.cons_append] at hx
      rw [← List.append_assoc]
      exact .brings (.piece hx hs) ht

/-- What is opened is either brought to its end, before the text goes on with the closers around it, or
left pending. -/
theorem Resumes.opening (hx : Opening (modeOf closers) x inner closer)
    (h : Resumes (closer :: closers) s next closers') : Resumes closers (x ++ s) next closers' := by
  cases h with
  | @leaves _ pending _ _ h =>
      rw [hx.modeOf_cons] at h
      have hleaves := Resumes.leaves (.opened .nil hx h)
      simpa using hleaves
  | @brings _ _ _ t s _ ht hs =>
      rw [hx.modeOf_cons] at ht
      cases hs with
      | leaves hs => exact .leaves (hs.nest hx ht)
      | @brings closer' closers _ s' r _ hs' hr =>
          have happ : x ++ (t ++ closer :: (s' ++ closer' :: r)) =
              x ++ (t ++ closer :: s') ++ closer' :: r := by simp
          rw [List.append_assoc, List.cons_append] at ht
          rw [happ]
          exact .brings (.nest hx ht hs') hr

/-- What can stand at the start of a text, given the closers that are still to come. -/
theorem next_cases (closers : List Char) (c : Char) (cs : List Char) :
    (∃ xs t, cs = xs ++ t ∧ Piece (modeOf closers) (c :: xs) t) ∨
    (∃ xs t inner closer, cs = xs ++ t ∧ Opening (modeOf closers) (c :: xs) inner closer) ∨
    (Closes c ∧ ∃ below, closers = c :: below) ∨
    ∀ n, ∃ result, Stops closers (c :: cs) n result := by
  cases hm : modeOf closers with
  | code =>
      by_cases hquote : isQuote c = true
      · have hlength := stringTailLength_le c cs
        refine .inl ⟨cs.take (stringTailLength c cs), cs.drop (stringTailLength c cs),
          (List.take_append_drop _ cs).symm, .string hquote ?_⟩
        rw [List.take_append_drop, List.length_take, Nat.min_eq_left hlength]
        simp [stringEnd]
      by_cases hmark : c = templateMark
      · subst hmark
        exact .inr (.inl ⟨[], cs, _, _, rfl, .template⟩)
      by_cases hline : c = '/' ∧ cs.head? = some '/'
      · obtain ⟨rfl, hline⟩ := hline
        obtain ⟨cs, rfl⟩ := List.head?_eq_some_iff.1 hline
        by_cases hbreak : '\n' ∈ cs
        · obtain ⟨run, t, rfl, hrun⟩ := List.eq_append_cons_of_mem hbreak
          exact .inl ⟨'/' :: run, '\n' :: t, rfl, .lineComment hrun (.inr rfl)⟩
        · exact .inl ⟨'/' :: cs, [], by simp, .lineComment hbreak (.inl rfl)⟩
      by_cases hblock : c = '/' ∧ cs.head? = some '*'
      · obtain ⟨rfl, hblock⟩ := hblock
        obtain ⟨cs, rfl⟩ := List.head?_eq_some_iff.1 hblock
        by_cases htail : ∃ tail t, cs = tail ++ t ∧ BlockTail tail
        · obtain ⟨tail, t, rfl, htail⟩ := htail
          exact .inl ⟨'*' :: tail, t, rfl, .blockComment htail⟩
        · refine .inl ⟨'*' :: cs, [], by simp, .cutComment ?_⟩
          rintro tail ⟨t, rfl⟩ hends
          exact htail ⟨tail, t, rfl, hends⟩
      cases hopens : closerOf? c with
      | some closer => exact .inr (.inl ⟨[], cs, _, closer, rfl, .bracket hopens⟩)
      | none =>
          by_cases hcloser : isCloser c = true
          · cases closers with
            | nil =>
                refine .inr (.inr (.inr fun n => ?_))
                have hc : c = ')' ∨ c = ']' ∨ c = '}' := by simpa [isCloser, or_assoc] using hcloser
                rcases hc with rfl | rfl | rfl
                · exact ⟨_, .unbalanced (.inl rfl)⟩
                · exact ⟨_, .unbalanced (.inr rfl)⟩
                · exact ⟨_, .closed⟩
            | cons top below =>
                by_cases htop : top = c
                · exact .inr (.inr (.inl ⟨.inl hcloser, below, by rw [htop]⟩))
                · have hcode : top ≠ templateMark := by
                    rintro rfl
                    simp [modeOf] at hm
                  exact .inr (.inr (.inr fun n => ⟨_, .wrong hcloser hcode htop⟩))
          · refine .inl ⟨[], cs, rfl, .plain ?_ ?_⟩
            · simp [isPlain, hquote, hmark, hopens, hcloser]
            · exact fun hc => ⟨fun h => hline ⟨hc, h⟩, fun h => hblock ⟨hc, h⟩⟩
  | template =>
      obtain ⟨below, rfl⟩ := modeOf_eq_template_iff.1 hm
      by_cases hslash : c = '\\'
      · subst hslash
        cases cs with
        | nil => exact .inl ⟨[], [], rfl, .cutEscape⟩
        | cons d cs => exact .inl ⟨[d], cs, rfl, .escape⟩
      by_cases hmark : c = templateMark
      · exact .inr (.inr (.inl ⟨.inr hmark, below, by rw [hmark]⟩))
      by_cases hdollar : c = '$' ∧ cs.head? = some '{'
      · obtain ⟨rfl, hdollar⟩ := hdollar
        obtain ⟨cs, rfl⟩ := List.head?_eq_some_iff.1 hdollar
        exact .inr (.inl ⟨['{'], cs, _, _, rfl, .substitution⟩)
      · exact .inl ⟨[], cs, rfl, .letter hslash hmark fun hc h => hdollar ⟨hc, h⟩⟩

/-- The scan reads on as far as a segment can go on, and stops there. -/
theorem exists_stops (closers cs : List Char) (offset : Nat) :
    ∃ s t closers', cs = s ++ t ∧ Resumes closers s t closers' ∧
      Stops closers' t (offset + s.length) (scanFrom closers 0 offset cs) := by
  induction hlength : cs.length using Nat.strong_induction_on generalizing closers cs offset with
  | _ k ih =>
      subst hlength
      cases cs with
      | nil =>
          refine ⟨[], [], closers, rfl, .leaves (.inside .nil), ?_⟩
          rw [scanFrom]
          exact .ended
      | cons c cs =>
          -- what is read first is followed by what the rest of the text gives
          have hgo : ∀ {x t closers₁}, c :: cs = x ++ t → x ≠ [] →
              scanFrom closers 0 offset (x ++ t) = scanFrom closers₁ 0 (offset + x.length) t →
              (∀ {s t' closers'}, t = s ++ t' → Resumes closers₁ s t' closers' →
                Resumes closers (x ++ s) t' closers') →
              ∃ s t closers', c :: cs = s ++ t ∧ Resumes closers s t closers' ∧
                Stops closers' t (offset + s.length) (scanFrom closers 0 offset (c :: cs)) := by
            intro x t closers₁ heq hx hscan hresumes
            have hshorter : t.length < (c :: cs).length := by
              have := List.length_pos_iff.2 hx
              rw [heq, List.length_append]
              omega
            obtain ⟨s, t', closers', rfl, hs, hstops⟩ :=
              ih t.length hshorter closers₁ t (offset + x.length) rfl
            refine ⟨x ++ s, t', closers', by rw [heq, List.append_assoc], hresumes rfl hs, ?_⟩
            rw [heq, hscan, List.length_append, ← Nat.add_assoc]
            exact hstops
          obtain ⟨xs, t, rfl, hpiece⟩ | ⟨xs, t, inner, closer, rfl, hopen⟩ | ⟨hcloses, below, rfl⟩ |
            hstops := next_cases closers c cs
          · refine hgo (x := c :: xs) rfl (by simp) (scanFrom_piece hpiece) ?_
            rintro s t' closers' rfl hs
            exact hs.piece hpiece
          · exact hgo (x := c :: xs) rfl (by simp) (scanFrom_opening hopen) fun _ hs => hs.opening hopen
          · exact hgo (x := [c]) rfl (by simp) (scanFrom_closer hcloses) fun _ hs => .brings .nil hs
          · obtain ⟨result, hstops⟩ := hstops offset
            refine ⟨[], c :: cs, closers, rfl, .leaves (.inside .nil), ?_⟩
            rw [hstops.scanFrom_eq]
            exact hstops

/-- The scan stops where the start of a segment meets what cannot go on with it. -/
theorem scanEnd_eq_iff {result : Except Located Nat} : scanEnd cs offset = result ↔
    ∃ s t closers, cs = s ++ t ∧ Pending .code closers s t ∧ Stops closers t (offset + s.length) result := by
  constructor
  · rintro rfl
    obtain ⟨s, t, closers, heq, hs, hstops⟩ := exists_stops [] cs offset
    cases hs with
    | leaves hs =>
        rw [List.append_nil] at hstops
        exact ⟨s, t, _, heq, hs, hstops⟩
  · rintro ⟨s, t, closers, rfl, hs, hstops⟩
    rw [scanEnd, hs.scanFrom_eq rfl, List.append_nil]
    exact hstops.scanFrom_eq

/-! ### Starts of segments as starts -/

/-- Texts that pieces in front of them do not tell apart: they start alike, or with closers. -/
structure Alike (s t : List Char) : Prop where
  ne_nil : s ≠ []
  head : t.head? = s.head? ∨ (∀ d ∈ s.head?, Closes d) ∧ ∀ d ∈ t.head?, Closes d

theorem Alike.append (h : Alike s t) (cs : List Char) : Alike (cs ++ s) (cs ++ t) := by
  cases cs with
  | nil => exact h
  | cons c cs => exact ⟨by simp, .inl rfl⟩

/-- A character that is no closer starts one of the texts only if it starts both. -/
theorem Alike.head?_ne (h : Alike s t) (hc : ¬Closes c) (hs : s.head? ≠ some c) : t.head? ≠ some c := by
  rcases h.head with heq | ⟨-, hclose⟩
  · rwa [heq]
  · exact fun ht => hc (hclose c ht)

/-- A string that something follows has come to its end. -/
theorem stringTailLength_of_ne_nil (hmark : mark ≠ '\\') (hs : s ≠ [])
    (h : stringTailLength mark (tail ++ s) = tail.length) (t : List Char) :
    stringTailLength mark (tail ++ t) = tail.length := by
  fun_induction stringTailLength mark tail with
  | case1 c cs ih => simpa [stringTailLength] using ih (by simpa [stringTailLength] using h)
  | case2 c cs hslash hstop =>
      have hc : c ≠ '\\' := by
        rintro rfl
        have hself : '\\' = mark := by simpa using hstop
        exact hmark hself.symm
      have hone : ∀ r, stringTailLength mark (c :: r) = 1 := by
        intro r
        rw [stringTailLength, if_pos hstop]
        rintro _ _ rfl
        exact absurd rfl hc
      simp only [List.cons_append, hone, List.length_cons] at h ⊢
      omega
  | case3 c cs hslash hgo ih =>
      have hc : c ≠ '\\' := by
        rintro rfl
        cases cs with
        | nil =>
            obtain ⟨d, s, rfl⟩ := List.exists_cons_of_ne_nil hs
            simp [stringTailLength] at h
        | cons d cs => exact hslash d cs rfl rfl
      have hone : ∀ r, stringTailLength mark (c :: r) = stringTailLength mark r + 1 := by
        intro r
        rw [stringTailLength, if_neg hgo]
        rintro _ _ rfl
        exact absurd rfl hc
      simp only [List.cons_append, hone, List.length_cons, Nat.add_right_cancel_iff] at h ⊢
      exact ih h
  | case4 =>
      obtain ⟨d, s, rfl⟩ := List.exists_cons_of_ne_nil hs
      rw [List.nil_append, List.length_nil] at h
      unfold stringTailLength at h
      split at h <;> simp_all
      split at h <;> simp_all

theorem Piece.of_alike (h : Piece m x s) (hst : Alike s t) : Piece m x t := by
  have hne : ∀ {c}, ¬Closes c → s.head? ≠ some c → t.head? ≠ some c := hst.head?_ne
  cases h with
  | plain hc hslash =>
      exact .plain hc fun h => ⟨hne (by unfold Closes; decide) (hslash h).1,
        hne (by unfold Closes; decide) (hslash h).2⟩
  | @string mark tail _ hmark htail =>
      have hbackslash : mark ≠ '\\' := by rintro rfl; simp [isQuote] at hmark
      have hlength : stringTailLength mark (tail ++ s) = tail.length := by
        simpa [stringEnd] using htail
      refine .string hmark ?_
      simpa [stringEnd] using stringTailLength_of_ne_nil hbackslash hst.ne_nil hlength t
  | lineComment hcs hline =>
      have hline := hline.resolve_left hst.ne_nil
      refine .lineComment hcs (.inr ?_)
      rcases hst.head with heq | ⟨hclose, -⟩
      · rw [heq, hline]
      · exact absurd (hclose _ hline) (by unfold Closes; decide)
  | blockComment htail => exact .blockComment htail
  | cutComment => exact absurd rfl hst.ne_nil
  | letter h₁ h₂ hdollar =>
      exact .letter h₁ h₂ fun h => hne (by unfold Closes; decide) (hdollar h)
  | escape => exact .escape
  | cutEscape => exact absurd rfl hst.ne_nil

theorem Segment.of_alike {next' : List Char} (h : Segment m s next) (hnext : Alike next next') :
    Segment m s next' := by
  induction h generalizing next' with
  | nil => exact .nil
  | piece hx _ ih => exact .piece (hx.of_alike (hnext.append _)) (ih hnext)
  | nest hx _ _ ih₁ ih₂ => exact .nest hx (ih₁ ⟨by simp, .inl rfl⟩) (ih₂ hnext)

theorem Segment.append (h : Segment m s (t ++ next)) (ht : Segment m t next) :
    Segment m (s ++ t) next := by
  generalize hall : t ++ next = all at h
  induction h with
  | nil => exact ht
  | @piece m x s _ hx _ ih =>
      subst hall
      rw [List.append_assoc]
      exact .piece (by rwa [List.append_assoc]) (ih ht rfl)
  | @nest m inner x t' s _ closer hx ht' _ _ ih =>
      subst hall
      have happ : x ++ (t' ++ closer :: s) ++ t = x ++ (t' ++ closer :: (s ++ t)) := by simp
      rw [happ]
      exact .nest hx (by rwa [List.append_assoc]) (ih ht rfl)

/-- The start of a segment that a closer follows is the start of a whole one: the closers that are still
to come complete it. -/
theorem Pending.segment_append {next' : List Char} (h : Pending m closers s next)
    (hnext : next ≠ []) (hclose : ∀ d ∈ next.head?, Closes d) (hclose' : ∀ d ∈ next'.head?, Closes d) :
    Segment m (s ++ closers) next' := by
  induction h generalizing next' with
  | inside h =>
      rw [List.append_nil]
      exact h.of_alike ⟨hnext, .inr ⟨hclose, hclose'⟩⟩
  | @opened m inner s x t closers next closer hs hx _ ih =>
      have happ : s ++ (x ++ t) ++ (closers ++ [closer]) = s ++ (x ++ (t ++ closers ++ closer :: [])) := by
        simp
      have hinner : Segment inner (t ++ closers) (closer :: ([] ++ next')) :=
        ih hnext hclose fun d hd => by simpa [← Option.mem_some.1 hd] using hx.closes
      rw [happ]
      refine .append (hs.of_alike ?_) (.nest hx hinner .nil)
      have hne : x ≠ [] := by cases hx <;> simp
      obtain ⟨d, x, rfl⟩ := List.exists_cons_of_ne_nil hne
      exact ⟨by simp, .inl rfl⟩

/-! ### The end of an expression -/

/-- The scan from a position of a text, told by the place where it stops. -/
theorem scanEnd_drop_eq_iff {content : List Char} {pos : Nat} {result : Except Located Nat} :
    scanEnd (content.drop pos) pos = result ↔
      ∃ j closers, pos ≤ j ∧ j ≤ max pos content.length ∧
        Pending .code closers (content.extract pos j) (content.drop j) ∧
        Stops closers (content.drop j) j result := by
  rw [scanEnd_eq_iff]
  constructor
  · rintro ⟨s, t, closers, heq, hs, hstops⟩
    have hlength := congrArg List.length heq
    rw [List.length_drop, List.length_append] at hlength
    have ht : content.drop (pos + s.length) = t := by rw [← List.drop_drop, heq, List.drop_left]
    have hs' : content.extract pos (pos + s.length) = s := by
      rw [List.extract_eq_take_drop, heq, Nat.add_sub_cancel_left, List.take_left]
    exact ⟨pos + s.length, closers, Nat.le_add_right .., by omega, by rwa [hs', ht], by rwa [ht]⟩
  · rintro ⟨j, closers, hpos, hj, hs, hstops⟩
    have hlength : pos + (content.extract pos j).length = j := by
      rw [List.extract_eq_take_drop, List.length_take, List.length_drop]
      omega
    have heq : content.drop pos = content.extract pos j ++ content.drop j := by
      have hdrop : content.drop j = (content.drop pos).drop (j - pos) := by
        rw [List.drop_drop, Nat.add_sub_cancel' hpos]
      rw [List.extract_eq_take_drop, hdrop, List.take_append_drop]
    exact ⟨_, _, closers, heq, hs, by rwa [hlength]⟩

section Answers

variable {content : List Char} {pos i j : Nat}

theorem drop_of_getElem? (h : content[j]? = some c) :
    j < content.length ∧ content.drop j = c :: content.drop (j + 1) := by
  obtain ⟨hj, rfl⟩ := List.getElem?_eq_some_iff.1 h
  exact ⟨hj, List.drop_eq_getElem_cons hj⟩

theorem getElem?_of_drop (h : content.drop j = c :: t) : content[j]? = some c := by
  rw [← List.head?_drop, h, List.head?_cons]

theorem scanEnd_eq_ok_iff : scanEnd (content.drop pos) pos = .ok i ↔
    pos ≤ i ∧ content[i]? = some '}' ∧ Segment .code (content.extract pos i) (content.drop i) := by
  rw [scanEnd_drop_eq_iff]
  constructor
  · rintro ⟨j, closers, hpos, -, hs, hstops⟩
    generalize ht : content.drop j = t at hs hstops
    cases hstops with
    | closed => exact ⟨hpos, getElem?_of_drop ht, ht ▸ pending_nil_iff.1 hs⟩
  · rintro ⟨hpos, hi, hs⟩
    obtain ⟨hlt, ht⟩ := drop_of_getElem? hi
    exact ⟨i, [], hpos, by omega, .inside hs, ht ▸ .closed⟩

theorem scanEnd_eq_unbalanced_iff :
    scanEnd (content.drop pos) pos = .error ⟨.unbalancedCloser c, j⟩ ↔
      pos ≤ j ∧ content[j]? = some c ∧ (c = ')' ∨ c = ']') ∧
        Segment .code (content.extract pos j) (content.drop j) := by
  rw [scanEnd_drop_eq_iff]
  constructor
  · rintro ⟨j, closers, hpos, -, hs, hstops⟩
    generalize ht : content.drop j = t at hs hstops
    cases hstops with
    | unbalanced hc => exact ⟨hpos, getElem?_of_drop ht, hc, ht ▸ pending_nil_iff.1 hs⟩
  · rintro ⟨hpos, hj, hc, hs⟩
    obtain ⟨hlt, ht⟩ := drop_of_getElem? hj
    exact ⟨j, [], hpos, by omega, .inside hs, ht ▸ .unbalanced hc⟩

theorem scanEnd_eq_wrong_iff :
    scanEnd (content.drop pos) pos = .error ⟨.wrongCloser closer c, j⟩ ↔
      pos ≤ j ∧ content[j]? = some c ∧ isCloser c = true ∧ closer ≠ templateMark ∧ closer ≠ c ∧
        ∃ closers, Pending .code (closer :: closers) (content.extract pos j) (content.drop j) := by
  rw [scanEnd_drop_eq_iff]
  constructor
  · rintro ⟨j, closers, hpos, -, hs, hstops⟩
    generalize ht : content.drop j = t at hs hstops
    cases hstops with
    | wrong hc hmark hne => exact ⟨hpos, getElem?_of_drop ht, hc, hmark, hne, _, ht ▸ hs⟩
  · rintro ⟨hpos, hj, hc, hmark, hne, closers, hs⟩
    obtain ⟨hlt, ht⟩ := drop_of_getElem? hj
    exact ⟨j, _, hpos, by omega, hs, ht ▸ .wrong hc hmark hne⟩

theorem scanEnd_eq_unfinished_iff :
    scanEnd (content.drop pos) pos = .error ⟨.unfinishedExpression closer, j⟩ ↔
      j = max pos content.length ∧
        ∃ closers, Pending .code closers (content.drop pos) [] ∧ closer = closers.headD '}' := by
  have hall : content.extract pos (max pos content.length) = content.drop pos := by
    rw [List.extract_eq_take_drop, List.take_of_length_le]
    rw [List.length_drop]
    omega
  have hnil : content.drop (max pos content.length) = [] :=
    List.drop_eq_nil_of_le (Nat.le_max_right ..)
  rw [scanEnd_drop_eq_iff]
  constructor
  · rintro ⟨j, closers, hpos, hj, hs, hstops⟩
    generalize ht : content.drop j = t at hs hstops
    cases hstops with
    | ended =>
        have hend : j = max pos content.length := by
          have := List.drop_eq_nil_iff.1 ht
          omega
        rw [hend, hall] at hs
        exact ⟨hend, closers, hs, rfl⟩
  · rintro ⟨rfl, closers, hs, rfl⟩
    exact ⟨_, closers, Nat.le_max_left .., Nat.le_refl _, by rwa [hall, hnil], by rw [hnil]; exact .ended⟩

end Answers

/-- The scan from a position of a text gives the offset of a brace exactly if the text between them is a
closed segment.  A closing bracket is reported where it stands exactly if the text before it is a closed
segment, the brace of the expression itself being no fault, or the start of one in which another closer
has to come first.  Otherwise the text ends where closers are still to come, and the innermost one is
asked for, or the brace of the expression if there is none. -/
theorem scanEnd_recognises_segments (content : List Char) (pos : Nat) :
    (∀ i, scanEnd (content.drop pos) pos = .ok i ↔
      pos ≤ i ∧ content[i]? = some '}' ∧ Segment .code (content.extract pos i) (content.drop i)) ∧
    (∀ c j, scanEnd (content.drop pos) pos = .error ⟨.unbalancedCloser c, j⟩ ↔
      pos ≤ j ∧ content[j]? = some c ∧ (c = ')' ∨ c = ']') ∧
        Segment .code (content.extract pos j) (content.drop j)) ∧
    (∀ closer c j, scanEnd (content.drop pos) pos = .error ⟨.wrongCloser closer c, j⟩ ↔
      pos ≤ j ∧ content[j]? = some c ∧ isCloser c = true ∧ closer ≠ templateMark ∧ closer ≠ c ∧
        ∃ closers, Pending .code (closer :: closers) (content.extract pos j) (content.drop j)) ∧
    (∀ closer j, scanEnd (content.drop pos) pos = .error ⟨.unfinishedExpression closer, j⟩ ↔
      j = max pos content.length ∧
        ∃ closers, Pending .code closers (content.drop pos) [] ∧ closer = closers.headD '}') ∧
    ((∃ i, scanEnd (content.drop pos) pos = .ok i) ∨
      (∃ c j, scanEnd (content.drop pos) pos = .error ⟨.unbalancedCloser c, j⟩) ∨
      (∃ closer c j, scanEnd (content.drop pos) pos = .error ⟨.wrongCloser closer c, j⟩) ∨
      ∃ closer j, scanEnd (content.drop pos) pos = .error ⟨.unfinishedExpression closer, j⟩) := by
  refine ⟨fun _ => scanEnd_eq_ok_iff, fun _ _ => scanEnd_eq_unbalanced_iff,
    fun _ _ _ => scanEnd_eq_wrong_iff, fun _ _ => scanEnd_eq_unfinished_iff, ?_⟩
  generalize hresult : scanEnd (content.drop pos) pos = result
  obtain ⟨j, closers, -, -, -, hstops⟩ := scanEnd_drop_eq_iff.1 hresult
  generalize content.drop j = t at hstops
  cases hstops with
  | closed => exact .inl ⟨_, rfl⟩
  | unbalanced => exact .inr (.inl ⟨_, _, rfl⟩)
  | wrong => exact .inr (.inr (.inl ⟨_, _, _, rfl⟩))
  | ended => exact .inr (.inr (.inr ⟨_, _, rfl⟩))

/-- The braces in the template are text and the end of a substitution. -/
example : scanEnd ['f', '(', '\x60', '}', '$', '{', 'x', '}', '\x60', ')', '}', '!'] 0 = .ok 10 := by
  decide

end ReactiveTemplate.Script
