/-
**Guards read the bits that marks set.**

A generated module keeps a change set: an array of words of 32 bits.  A binding is marked by setting
bit `i & 31` of word `i >> 5`, where `i` is its index.  A guard was written long before, from the
indices of its names, as a test of one mask for each word of interest.  Both sides split an index on
their own, so this module runs a change set and compares.

Splitting an index into its word and bit loses nothing, whatever the index is; hence the tests for
some indices are about these indices and no others.  The indices of bindings are numbered from zero,
so the words of a component are as many as its marks and guards need.

Main definitions:

* `ReactiveTemplate.TestsFor` — tests whose bits are those of some names;
* `ReactiveTemplate.ChangeSet`, `ReactiveTemplate.ChangeSet.mark` — a change set while a module runs;
* `ReactiveTemplate.ChangeSet.guardValue` — what a guard gives on a change set;
* `ReactiveTemplate.Layout.conditions` — the headers of the conditional blocks of a layout.

Main results:

* `ReactiveTemplate.testBit_maskOf` — the bits of a mask;
* `ReactiveTemplate.testsFor_wordTests` — the tests for the indices of names are about these;
* `ReactiveTemplate.ChangeSet.guardValue_ne_zero_iff` — a guard on marked bits;
* `ReactiveTemplate.conditions_layout` — the conditions of a module are the guards of its blocks;
* `ReactiveTemplate.guards_read_marks` — **a guard is non-zero exactly when one of its names is
  marked**.
-/

import Mathlib.Data.Int.Bitwise
import ReactiveTemplate.Compile
import ReactiveTemplate.Proofs.Announcements
import ReactiveTemplate.Proofs.Notification.Changes

set_option relaxedAutoImplicit false
set_option autoImplicit false

namespace ReactiveTemplate

/-! ### Words and bits -/

theorem bitOf_lt (i : Int) : bitOf i < wordBits := by
  have hpos : (0 : Int) < wordBits := by decide
  have hlt := Int.fmod_lt_of_pos i hpos
  have hnonneg := Int.fmod_nonneg_of_pos i hpos
  unfold bitOf
  omega

/-- An index is found again from its word and bit. -/
theorem wordBits_mul_wordOf_add_bitOf (i : Int) : (wordBits : Int) * wordOf i + bitOf i = i := by
  have hpos : (0 : Int) < wordBits := by decide
  have hnonneg := Int.fmod_nonneg_of_pos i hpos
  have hsplit := Int.mul_fdiv_add_fmod i wordBits
  rw [wordOf, bitOf, Int.toNat_of_nonneg hnonneg]
  exact hsplit

/-- Nothing but the word and bit of an index make it up. -/
theorem eq_wordBits_mul_add_iff {i word : Int} {bit : Nat} (hbit : bit < wordBits) :
    i = (wordBits : Int) * word + bit ↔ wordOf i = word ∧ bitOf i = bit := by
  have hsplit := wordBits_mul_wordOf_add_bitOf i
  have hlt := bitOf_lt i
  have hw : wordBits = 32 := rfl
  rw [hw] at hsplit hlt hbit ⊢
  constructor
  · intro hi
    constructor <;> omega
  · rintro ⟨rfl, rfl⟩
    exact hsplit.symm

theorem testBit_foldl_or (indices : List Int) (bit : Nat) :
    ∀ mask : Nat, (indices.foldl (fun mask i => mask ||| 1 <<< bitOf i) mask).testBit bit = true ↔
      mask.testBit bit = true ∨ ∃ i ∈ indices, bitOf i = bit := by
  induction indices with
  | nil => intro mask; simp
  | cons i indices ih =>
      intro mask
      have hone : (1 <<< bitOf i).testBit bit = true ↔ bitOf i = bit := by
        rw [Nat.one_shiftLeft, Nat.testBit_two_pow, decide_eq_true_iff]
      rw [List.foldl_cons, ih, Nat.testBit_or, Bool.or_eq_true, hone, List.exists_mem_cons_iff, or_assoc]

/-- The bits of a mask are those of the indices in its word. -/
theorem testBit_maskOf {word : Int} {indices : List Int} {bit : Nat} :
    (maskOf word indices).testBit bit = true ↔ ∃ i ∈ indices, wordOf i = word ∧ bitOf i = bit := by
  rw [maskOf, testBit_foldl_or]
  simp [and_assoc]

theorem maskOf_lt (word : Int) (indices : List Int) : maskOf word indices < 2 ^ wordBits := by
  refine Nat.lt_pow_two_of_testBit _ fun bit hbit => ?_
  rw [← Bool.not_eq_true, testBit_maskOf]
  rintro ⟨i, -, -, rfl⟩
  exact absurd (bitOf_lt i) (by omega)

theorem maskOf_pos {word : Int} {indices : List Int} (h : ∃ i ∈ indices, wordOf i = word) :
    0 < maskOf word indices := by
  obtain ⟨i, hi, hword⟩ := h
  have hbit : (maskOf word indices).testBit (bitOf i) = true := testBit_maskOf.2 ⟨i, hi, hword, rfl⟩
  refine Nat.pos_of_ne_zero fun hzero => ?_
  rw [hzero, Nat.zero_testBit] at hbit
  cases hbit

/-! ### Tests -/

theorem mem_wordTests {indices : List Int} {t : WordTest} :
    t ∈ wordTests indices ↔ (∃ i ∈ indices, wordOf i = t.word) ∧ t.mask = maskOf t.word indices := by
  simp only [wordTests, List.mem_map, mem_sortBy, List.mem_eraseDups]
  constructor
  · rintro ⟨word, hword, rfl⟩
    exact ⟨hword, rfl⟩
  · rintro ⟨hword, hmask⟩
    exact ⟨t.word, hword, by rw [← hmask]⟩

theorem pairwise_wordTests (indices : List Int) :
    (wordTests indices).Pairwise fun s t => s.word < t.word := by
  have hsorted : (sortBy (fun w => w) (indices.map wordOf).eraseDups).Pairwise (· ≤ ·) :=
    pairwise_sortBy _
  have hnodup : (sortBy (fun w => w) (indices.map wordOf).eraseDups).Nodup :=
    (perm_sortBy _ _).nodup_iff.2 (nodup_eraseDups _)
  rw [wordTests, List.pairwise_map]
  exact (hsorted.and hnodup).imp fun h => lt_of_le_of_ne h.1 h.2

/-- The bits that tests look at are those of the indices they were made for. -/
theorem exists_testBit_wordTests {indices : List Int} {i : Int} :
    (∃ t ∈ wordTests indices, ∃ bit, t.mask.testBit bit = true ∧ i = (wordBits : Int) * t.word + bit) ↔
      i ∈ indices := by
  constructor
  · rintro ⟨t, ht, bit, hbit, hi⟩
    rw [(mem_wordTests.1 ht).2] at hbit
    obtain ⟨j, hj, hword, rfl⟩ := testBit_maskOf.1 hbit
    rw [← hword, wordBits_mul_wordOf_add_bitOf] at hi
    exact hi ▸ hj
  · intro hi
    refine ⟨⟨wordOf i, maskOf (wordOf i) indices⟩, mem_wordTests.2 ⟨⟨i, hi, rfl⟩, rfl⟩, bitOf i,
      testBit_maskOf.2 ⟨i, hi, rfl, rfl⟩, (wordBits_mul_wordOf_add_bitOf i).symm⟩

/-- Tests in ascending order of words, each of some bits of its word, all of which together are the
bits of some names. -/
structure TestsFor (bindings : Bindings) (names : List String) (tests : List WordTest) : Prop where
  ascending : tests.Pairwise fun s t => s.word < t.word
  mask_pos : ∀ t ∈ tests, 0 < t.mask
  mask_lt : ∀ t ∈ tests, t.mask < 2 ^ 32
  tested : ∀ i : Int, (∃ t ∈ tests, ∃ bit, t.mask.testBit bit = true ∧ i = 32 * t.word + bit) ↔
    ∃ name ∈ names, bindings.index? name = some i

theorem testsFor_wordTests {bindings : Bindings} {names : List String} {indices : List Int}
    (h : bindings.indices names = .ok indices) : TestsFor bindings names (wordTests indices) where
  ascending := pairwise_wordTests indices
  mask_pos t ht := by
    obtain ⟨hword, hmask⟩ := mem_wordTests.1 ht
    exact hmask ▸ maskOf_pos hword
  mask_lt t ht := by
    rw [(mem_wordTests.1 ht).2]
    exact maskOf_lt _ _
  tested i := exists_testBit_wordTests.trans (Bindings.mem_of_indices_eq_ok h i)

/-- Names that are bound have indices. -/
theorem Bindings.exists_indices {bindings : Bindings} {names : List String}
    (h : ∀ name ∈ names, bindings.binds name = true) : ∃ indices, bindings.indices names = .ok indices := by
  induction names with
  | nil => exact ⟨[], rfl⟩
  | cons name names ih =>
      obtain ⟨hname, hnames⟩ := List.forall_mem_cons.1 h
      obtain ⟨i, hi⟩ := Bindings.binds_iff.1 hname
      obtain ⟨indices, hindices⟩ := ih hnames
      have hindex : bindings.index name = .ok i := by rw [Bindings.index, hi]
      exact ⟨i :: indices, by rw [Bindings.indices, hindex, hindices]; rfl⟩

/-- Names that are bound can be put in the order of their indices. -/
theorem Bindings.exists_arrange {bindings : Bindings} {names : List String}
    (h : ∀ name ∈ names, bindings.binds name = true) : ∃ arranged, bindings.arrange names = .ok arranged := by
  have hdistinct : ∀ name ∈ Names.ofList names, bindings.binds name = true :=
    fun name hname => h name (Names.mem_ofList.1 hname)
  obtain ⟨indices, hindices⟩ := Bindings.exists_indices hdistinct
  exact ⟨_, by rw [Bindings.arrange, hindices]; rfl⟩

/-- Names that are bound have a guard. -/
theorem exists_guardText {bindings : Bindings} {names : List String}
    (h : ∀ name ∈ names, bindings.binds name = true) (dirty : String) :
    ∃ text, guardText bindings names dirty = .ok text := by
  obtain ⟨indices, hindices⟩ := Bindings.exists_indices h
  obtain ⟨label, hlabel⟩ := Bindings.exists_arrange h
  exact ⟨_, by rw [guardText, hindices, hlabel]; rfl⟩

/-- A guard is its tests and a comment. -/
theorem guardText_eq_ok {bindings : Bindings} {names : List String} {dirty text : String}
    (h : guardText bindings names dirty = .ok text) :
    ∃ indices label, bindings.indices names = .ok indices ∧ bindings.arrange names = .ok label ∧
      text = renderTests dirty (wordTests indices) ++ " /* " ++ ", ".intercalate label ++ " */" := by
  obtain ⟨indices, hindices, h⟩ := exists_of_bind_eq_ok h
  obtain ⟨label, hlabel, h⟩ := exists_of_bind_eq_ok h
  cases h
  exact ⟨indices, label, hindices, hlabel, rfl⟩

/-! ### Change sets at work -/

/-- A change set while a module runs: an array of words. -/
abbrev ChangeSet := List (BitVec 32)

namespace ChangeSet

/-- The change set with no change in it. -/
def clear (count : Nat) : ChangeSet :=
  List.replicate count 0#32

/-- The word at a place; outside the array, nothing is set. -/
def word (s : ChangeSet) (place : Int) : BitVec 32 :=
  if 0 ≤ place then s.getD place.toNat 0#32 else 0#32

/-- Sets bit `i & 31` of word `i >> 5`. Outside the array, this changes nothing. -/
def mark (s : ChangeSet) (i : Int) : ChangeSet :=
  if 0 ≤ i >>> (5 : Nat) then s.modify (i >>> (5 : Nat)).toNat fun w => w ||| 1#32 <<< (Int.land i 31).toNat else s

/-- What a test gives. -/
def testValue (s : ChangeSet) (t : WordTest) : BitVec 32 :=
  s.word t.word &&& BitVec.ofNat 32 t.mask

/-- What a guard gives: the value of its first test that is not zero. -/
def guardValue (s : ChangeSet) : List WordTest → BitVec 32
  | [] => 0#32
  | t :: ts => if s.testValue t = 0#32 then guardValue s ts else s.testValue t

theorem length_mark (s : ChangeSet) (i : Int) : (s.mark i).length = s.length := by
  unfold mark
  split
  · exact List.length_modify ..
  · rfl

theorem shiftRight_natCast (n : Nat) : (n : Int) >>> (5 : Nat) = ((n / 32 : Nat) : Int) := by
  rw [Int.shiftRight_eq_div_pow]
  rfl

theorem land_natCast (n : Nat) : (Int.land n 31).toNat = n % 32 :=
  Nat.and_two_pow_sub_one_eq_mod n 5

/-- A mark sets the bit of its index and leaves all others as they are. -/
theorem getLsbD_word_mark {s : ChangeSet} {n : Nat} (hn : n / 32 < s.length) (place bit : Nat) :
    ((s.mark n).word place).getLsbD bit = true ↔
      (s.word place).getLsbD bit = true ∨ (n / 32 = place ∧ n % 32 = bit) := by
  have hbit : (1#32 <<< (n % 32)).getLsbD bit = true ↔ n % 32 = bit := by
    have htwo : (1#32 <<< (n % 32)) = BitVec.twoPow 32 (n % 32) := (BitVec.twoPow_eq _ _).symm
    rw [htwo, BitVec.getLsbD_twoPow]
    simp [Nat.mod_lt]
  rw [mark, shiftRight_natCast, if_pos (Int.natCast_nonneg _), land_natCast, Int.toNat_natCast]
  simp only [word, Int.natCast_nonneg, if_true, Int.toNat_natCast, List.getD_eq_getElem?_getD,
    List.getElem?_modify]
  by_cases hplace : n / 32 = place
  · subst hplace
    simp only [List.getElem?_eq_getElem hn, Option.map_eq_map, Option.map_some, if_true, Option.getD_some,
      BitVec.getLsbD_or, Bool.or_eq_true, hbit, true_and]
  · simp [hplace]

theorem word_clear (count : Nat) (place : Int) : (clear count).word place = 0#32 := by
  unfold word
  split
  · rw [clear, List.getD_eq_getElem?_getD, List.getElem?_replicate]
    split <;> rfl
  · rfl

/-- After any marks inside the array, exactly their bits are set besides those that were. -/
theorem getLsbD_word_foldl_mark (marked : List Nat) (place bit : Nat) :
    ∀ {s : ChangeSet}, (∀ n ∈ marked, n / 32 < s.length) →
      ((((marked.map Int.ofNat).foldl mark s).word place).getLsbD bit = true ↔
        (s.word place).getLsbD bit = true ∨ ∃ n ∈ marked, n / 32 = place ∧ n % 32 = bit) := by
  induction marked with
  | nil => intro s _; simp
  | cons n marked ih =>
      intro s h
      obtain ⟨hn, hrest⟩ := List.forall_mem_cons.1 h
      have hstep := getLsbD_word_mark hn place bit
      rw [List.map_cons, List.foldl_cons, ih (fun m hm => (length_mark s _).symm ▸ hrest m hm)]
      rw [show Int.ofNat n = (n : Int) from rfl, hstep, List.exists_mem_cons_iff, or_assoc]

theorem guardValue_eq_zero_iff {s : ChangeSet} {tests : List WordTest} :
    s.guardValue tests = 0#32 ↔ ∀ t ∈ tests, s.testValue t = 0#32 := by
  induction tests with
  | nil => simp [guardValue]
  | cons t tests ih =>
      rw [guardValue]
      split
      · next hzero => simp [ih, hzero]
      · next hne => simp [hne]

theorem testValue_ne_zero_iff {s : ChangeSet} {t : WordTest} :
    s.testValue t ≠ 0#32 ↔ ∃ bit, (s.word t.word).getLsbD bit = true ∧ t.mask.testBit bit = true := by
  constructor
  · intro hne
    by_contra hnone
    refine hne (BitVec.eq_of_getLsbD_eq fun bit hbit => ?_)
    rw [testValue, BitVec.getLsbD_and, BitVec.getLsbD_ofNat, BitVec.getLsbD_zero, ← Bool.not_eq_true]
    intro hset
    simp only [Bool.and_eq_true] at hset
    exact hnone ⟨bit, hset.1, hset.2.2⟩
  · rintro ⟨bit, hword, hmask⟩ hzero
    have hbit : bit < 32 := BitVec.lt_of_getLsbD hword
    have hset : (s.testValue t).getLsbD bit = true := by
      rw [testValue, BitVec.getLsbD_and, BitVec.getLsbD_ofNat, hword, hmask]
      simpa using hbit
    rw [hzero, BitVec.getLsbD_zero] at hset
    cases hset

/-- A guard is non-zero exactly when one of its tests looks at a bit that is set. -/
theorem guardValue_ne_zero_iff {s : ChangeSet} {tests : List WordTest} :
    s.guardValue tests ≠ 0#32 ↔
      ∃ t ∈ tests, ∃ bit, (s.word t.word).getLsbD bit = true ∧ t.mask.testBit bit = true := by
  rw [Ne, guardValue_eq_zero_iff]
  push Not
  exact exists_congr fun t => and_congr_right fun _ => testValue_ne_zero_iff

end ChangeSet

/-! ### The words of a component -/

/-- The indices of bindings are below their number. -/
def Bindings.Numbered (bindings : Bindings) : Prop :=
  ∀ b ∈ bindings, ∃ n < bindings.length, b.2 = (n : Int)

theorem Bindings.numbered_ofNames (names : List String) : (Bindings.ofNames names).Numbered := by
  intro b hb
  obtain ⟨k, hk, rfl⟩ := List.mem_iff_getElem.1 hb
  exact ⟨k, hk, by simp [Bindings.ofNames]⟩

theorem div_lt_wordCount {bindings : Bindings} {n : Nat} (h : n < bindings.length) :
    n / 32 < wordCount bindings := by
  have hw : wordBits = 32 := rfl
  rw [wordCount, hw]
  omega

/-- A guard and the marks of bindings meet in the change set of a component: neither goes outside the
array, and the guard is non-zero exactly when one of its names is marked. -/
structure ReadsMarks (bindings : Bindings) (names : List String) (tests : List WordTest) : Prop where
  word_inside : ∀ t ∈ tests, 0 ≤ t.word ∧ t.word < wordCount bindings
  mark_inside : ∀ b ∈ bindings, 0 ≤ b.2 >>> (5 : Nat) ∧ b.2 >>> (5 : Nat) < wordCount bindings
  value_ne_zero : ∀ marked : List Int, (∀ i ∈ marked, i ∈ bindings.map Prod.snd) →
    ((marked.foldl ChangeSet.mark (.clear (wordCount bindings))).guardValue tests ≠ 0#32 ↔
      ∃ name ∈ names, ∃ i ∈ marked, bindings.index? name = some i)

theorem Bindings.Numbered.exists_of_marked {bindings : Bindings} (h : bindings.Numbered)
    {marked : List Int} (hm : ∀ i ∈ marked, i ∈ bindings.map Prod.snd) :
    ∃ ns : List Nat, marked = ns.map Int.ofNat ∧ ∀ n ∈ ns, n < bindings.length := by
  induction marked with
  | nil => exact ⟨[], rfl, by simp⟩
  | cons i marked ih =>
      obtain ⟨hi, hrest⟩ := List.forall_mem_cons.1 hm
      obtain ⟨b, hb, rfl⟩ := List.mem_map.1 hi
      obtain ⟨n, hn, hbn⟩ := h b hb
      obtain ⟨ns, rfl, hns⟩ := ih hrest
      exact ⟨n :: ns, by rw [List.map_cons, hbn]; rfl, List.forall_mem_cons.2 ⟨hn, hns⟩⟩

section TestsFor

variable {bindings : Bindings} {names : List String} {tests : List WordTest} {t : WordTest} {bit : Nat}

theorem TestsFor.bit_lt (h : TestsFor bindings names tests) (ht : t ∈ tests)
    (hbit : t.mask.testBit bit = true) : bit < 32 := by
  have hpow : 2 ^ bit < 2 ^ 32 := (Nat.ge_two_pow_of_testBit hbit).trans_lt (h.mask_lt t ht)
  exact (Nat.pow_lt_pow_iff_right (by decide)).1 hpow

/-- A bit that tests look at is that of an index below the number of bindings. -/
theorem TestsFor.exists_index (h : TestsFor bindings names tests) (hnum : bindings.Numbered)
    (ht : t ∈ tests) (hbit : t.mask.testBit bit = true) :
    ∃ n < bindings.length, t.word = ((n / 32 : Nat) : Int) ∧ bit = n % 32 ∧
      ∃ name ∈ names, bindings.index? name = some (n : Int) := by
  obtain ⟨name, hname, hindex⟩ := (h.tested _).1 ⟨t, ht, bit, hbit, rfl⟩
  obtain ⟨n, hn, hi⟩ := hnum _ (Bindings.mem_of_index?_eq_some hindex)
  have hi : 32 * t.word + bit = (n : Int) := hi
  have hlt := h.bit_lt ht hbit
  exact ⟨n, hn, by omega, by omega, name, hname, hi ▸ hindex⟩

theorem TestsFor.readsMarks (h : TestsFor bindings names tests) (hnum : bindings.Numbered) :
    ReadsMarks bindings names tests where
  word_inside t ht := by
    obtain ⟨bit, hbit⟩ := Nat.exists_testBit_of_ne_zero (h.mask_pos t ht).ne'
    obtain ⟨n, hn, hword, -⟩ := h.exists_index hnum ht hbit
    have hlt := div_lt_wordCount hn
    omega
  mark_inside b hb := by
    obtain ⟨n, hn, hi⟩ := hnum b hb
    have hlt := div_lt_wordCount hn
    rw [hi, ChangeSet.shiftRight_natCast]
    omega
  value_ne_zero marked hm := by
    obtain ⟨ns, rfl, hns⟩ := hnum.exists_of_marked hm
    have hinside : ∀ n ∈ ns, n / 32 < (ChangeSet.clear (wordCount bindings)).length := fun n hn => by
      rw [ChangeSet.clear, List.length_replicate]
      exact div_lt_wordCount (hns n hn)
    have hmarks := fun place bit => ChangeSet.getLsbD_word_foldl_mark ns place bit hinside
    simp only [ChangeSet.word_clear, BitVec.getLsbD_zero, Bool.false_eq_true, false_or] at hmarks
    rw [ChangeSet.guardValue_ne_zero_iff]
    constructor
    · rintro ⟨t, ht, bit, hset, hbit⟩
      obtain ⟨n, -, hword, hmod, name, hname, hindex⟩ := h.exists_index hnum ht hbit
      rw [hword] at hset
      obtain ⟨m, hm, hdiv, hmod'⟩ := (hmarks _ _).1 hset
      obtain rfl : m = n := by omega
      exact ⟨name, hname, m, List.mem_map_of_mem hm, hindex⟩
    · rintro ⟨name, hname, i, hi, hindex⟩
      obtain ⟨m, hm, rfl⟩ := List.mem_map.1 hi
      obtain ⟨t, ht, bit, hbit, hsplit⟩ := (h.tested _).2 ⟨name, hname, hindex⟩
      obtain ⟨n, -, hword, hmod, -⟩ := h.exists_index hnum ht hbit
      have hsplit : (m : Int) = 32 * t.word + bit := hsplit
      obtain rfl : m = n := by omega
      exact ⟨t, ht, bit, hword ▸ (hmarks _ _).2 ⟨m, hm, rfl, hmod.symm⟩, hbit⟩

end TestsFor

/-! ### The guards of a module -/

namespace Layout

/-- Whether a header is that of a conditional block. -/
def isCondition (header : String) : Bool :=
  "if (".toList.isPrefixOf header.toList

mutual

/-- The headers of the conditional blocks of a layout. -/
def conditions : Layout → List String
  | line _ => []
  | blank => []
  | block header body _ => (if isCondition header then [header] else []) ++ conditionsAll body

/-- The headers of the conditional blocks of several layouts. -/
def conditionsAll : List Layout → List String
  | [] => []
  | l :: ls => conditions l ++ conditionsAll ls

end

theorem conditionsAll_append (ls ms : List Layout) :
    conditionsAll (ls ++ ms) = conditionsAll ls ++ conditionsAll ms := by
  induction ls with
  | nil => rfl
  | cons l ls ih => simp [conditionsAll, ih]

theorem conditionsAll_lines (texts : List String) : conditionsAll (lines texts) = [] := by
  induction texts with
  | nil => rfl
  | cons text texts ih => simpa [lines, conditionsAll, conditions] using ih

theorem conditions_block {header close : String} {body : List Layout} (h : isCondition header = false) :
    conditions (block header body close) = conditionsAll body := by
  simp [conditions, h]

end Layout

/-- The names of the guards of a component, in the order in which they are written. -/
def Component.guards (c : Component) : List (List String) :=
  ((c.reactive.map ReactiveBlock.names).filter fun names => !names.isEmpty) ++
    c.update.map UpdateBlock.names

/-- The header of a block that a guard on names stands before. -/
def GuardHeader (bindings : Bindings) (names : List String) (header : String) : Prop :=
  ∃ dirty text, guardText bindings names dirty = .ok text ∧ header = "if (" ++ text ++ ") \x7b"

theorem conditions_guardedLayout {bindings : Bindings} {dirty : String} {names lines : List String}
    {l : Layout} (h : guardedLayout bindings dirty names lines = .ok l) :
    ∃ header, l.conditions = [header] ∧ GuardHeader bindings names header := by
  obtain ⟨text, htext, h⟩ := exists_of_bind_eq_ok h
  cases h
  refine ⟨"if (" ++ text ++ ") \x7b", ?_, dirty, text, htext, rfl⟩
  have hcondition : Layout.isCondition ("if (" ++ text ++ ")" ++ " \x7b") = true := by
    simp [Layout.isCondition]
  have hheader : "if (" ++ text ++ ")" ++ " \x7b" = "if (" ++ text ++ ") \x7b" :=
    String.append_assoc ..
  rw [Layout.braces, Layout.conditions, Layout.conditionsAll_lines, hcondition, hheader]
  rfl

theorem conditions_reactiveLayout {bindings : Bindings} {blocks : List ReactiveBlock} :
    ∀ {ls : List Layout}, reactiveLayout bindings blocks = .ok ls →
      List.Forall₂ (GuardHeader bindings)
        ((blocks.map ReactiveBlock.names).filter fun names => !names.isEmpty)
        (Layout.conditionsAll ls) := by
  induction blocks with
  | nil =>
      intro ls h
      cases h
      exact .nil
  | cons b blocks ih =>
      intro ls h
      obtain ⟨rest, hrest, h⟩ := exists_of_bind_eq_ok h
      by_cases hempty : b.names.isEmpty
      · rw [if_pos hempty] at h
        cases h
        simpa [hempty] using ih hrest
      · rw [if_neg hempty] at h
        obtain ⟨l, hl, h⟩ := exists_of_bind_eq_ok h
        cases h
        obtain ⟨header, hheader, hguard⟩ := conditions_guardedLayout hl
        rw [List.map_cons, List.filter_cons_of_pos (by simpa using hempty), Layout.conditionsAll, hheader]
        exact .cons hguard (ih hrest)

theorem conditions_updateLayout {bindings : Bindings} {blocks : List UpdateBlock} :
    ∀ {ls : List Layout}, updateLayout bindings blocks = .ok ls →
      List.Forall₂ (GuardHeader bindings) (blocks.map UpdateBlock.names) (Layout.conditionsAll ls) := by
  induction blocks with
  | nil =>
      intro ls h
      cases h
      exact .nil
  | cons b blocks ih =>
      intro ls h
      obtain ⟨l, hl, h⟩ := exists_of_bind_eq_ok h
      obtain ⟨rest, hrest, h⟩ := exists_of_bind_eq_ok h
      cases h
      obtain ⟨header, hheader, hguard⟩ := conditions_guardedLayout hl
      rw [List.map_cons, Layout.conditionsAll, hheader]
      exact .cons hguard (ih hrest)

theorem conditions_importLayout (c : Component) : Layout.conditionsAll c.importLayout = [] := by
  unfold Component.importLayout
  split
  · rfl
  · rw [Layout.conditionsAll_append, Layout.conditionsAll_lines]
    rfl

theorem conditions_bodyLayout (c : Component) : Layout.conditionsAll c.bodyLayout = [] := by
  unfold Component.bodyLayout
  split
  · rfl
  · exact Layout.conditionsAll_lines _

/-- Of what the exported function holds, only the blocks of reactive declarations and of updates are
conditional. -/
theorem conditions_functionLayout (c : Component) (reactive updates : List Layout) :
    Layout.conditionsAll (c.functionLayout reactive updates) =
      Layout.conditionsAll reactive ++ Layout.conditionsAll updates := by
  have hmark (words : Nat) : (markLayout words).conditions = [] := by rfl
  have hdispatch : dispatchLayout.conditions = [] := by rfl
  have hlifecycle : (c.lifecycleLayout updates).conditions = Layout.conditionsAll updates := by
    rw [Component.lifecycleLayout, Layout.conditions_block (by decide)]
    simp only [Layout.conditionsAll]
    rw [Layout.conditions_block (by decide), Layout.conditions_block (by decide),
      Layout.conditions_block (by decide)]
    simp [Layout.conditionsAll, Layout.conditions, Layout.conditionsAll_lines]
  have hreactive : (Layout.braces "function update_reactive_declarations(dirty)" reactive).conditions =
      Layout.conditionsAll reactive := Layout.conditions_block (by decide)
  simp only [Component.functionLayout, stateLayout, Layout.conditionsAll_append,
    Layout.conditionsAll_lines, Layout.conditionsAll, conditions_bodyLayout, hmark, hdispatch, hlifecycle,
    hreactive]
  simp [Layout.conditions]

/-- The conditions of a module are the guards of its blocks, in order. -/
theorem conditions_layout {c : Component} {format : String} {ls : List Layout}
    (h : c.layout format = .ok ls) :
    List.Forall₂ (GuardHeader c.bindings) c.guards (Layout.conditionsAll ls) := by
  obtain ⟨reactive, hreactive, h⟩ := exists_of_bind_eq_ok h
  obtain ⟨updates, hupdates, h⟩ := exists_of_bind_eq_ok h
  cases h
  have hheaders : Layout.conditionsAll (c.importLayout ++
      [if format = "esm" then
        .block "export default function() \x7b" (c.functionLayout reactive updates) "\x7d"
      else .block "module.exports = function() \x7b" (c.functionLayout reactive updates) "\x7d;"]) =
      Layout.conditionsAll reactive ++ Layout.conditionsAll updates := by
    have hinside := conditions_functionLayout c reactive updates
    split
    · rw [Layout.conditionsAll_append, conditions_importLayout, Layout.conditionsAll,
        Layout.conditions_block (by decide), hinside]
      simp [Layout.conditionsAll]
    · rw [Layout.conditionsAll_append, conditions_importLayout, Layout.conditionsAll,
        Layout.conditions_block (by decide), hinside]
      simp [Layout.conditionsAll]
  rw [hheaders]
  exact List.rel_append (conditions_reactiveLayout hreactive) (conditions_updateLayout hupdates)

/-! ### Compiled templates -/

/-- A template that compiles was read, and generation succeeded on its analysis. -/
theorem exists_generated_of_compile {options : Options} {template : String} {c : Compiled}
    (h : compile options template = .ok c) :
    ∃ d, Document.parse template options.filename = .ok d ∧
      ((d.analyze options).2.generate options (d.analyze options).1).result = .ok c.generated := by
  cases hd : Document.parse template options.filename with
  | ok d => exact ⟨d, rfl, compile_eq_ok hd h⟩
  | error l =>
      unfold compile at h
      split at h
      · cases h
      · rw [hd] at h
        cases h

/-- A generated component is written as its layout says, and its bindings are numbered. -/
theorem exists_layout_of_generate {options : Options} {d : Document} {a : Analysis} {g : Generated}
    (h : (d.generate options a).result = .ok g) :
    g.bindings.Numbered ∧ ∃ ls, g.layout options.format = .ok ls ∧
      g.text = Layout.renderAll options.indent 0 ls := by
  obtain ⟨markup, ordered, -, -, -, h⟩ := exists_assemble_of_generate h
  obtain ⟨blocks, -, h⟩ := exists_of_bind_eq_ok h
  obtain ⟨texts, -, h⟩ := exists_of_bind_eq_ok h
  obtain ⟨text, htext, h⟩ := exists_of_bind_eq_ok h
  cases h
  obtain ⟨ls, hls, htext⟩ := exists_of_bind_eq_ok htext
  cases htext
  exact ⟨Bindings.numbered_ofNames _, ls, hls, rfl⟩

/-- **Guards read the bits that marks set.** Whatever indices names are bound to, the tests of a guard
on them are in ascending order of words, have masks of 32 bits, and look at exactly the bits of these
indices. In a module that was compiled, the conditions are the guards of its blocks, neither they nor
the marks of bindings go outside the words of a change set, and each is non-zero exactly when one of
its names is marked. -/
theorem guards_read_marks :
    (∀ (bindings : Bindings) (names : List String) (dirty : String),
      (∀ name ∈ names, bindings.binds name = true) →
        ∃ indices label, bindings.indices names = .ok indices ∧
          guardText bindings names dirty = .ok (renderTests dirty (wordTests indices) ++ label) ∧
          TestsFor bindings names (wordTests indices)) ∧
    ∀ (options : Options) (template : String) (c : Compiled), compile options template = .ok c →
      ∃ ls, c.generated.layout options.format = .ok ls ∧
        c.generated.text = Layout.renderAll options.indent 0 ls ∧
        List.Forall₂ (fun names header => ∃ dirty indices label,
            c.generated.bindings.indices names = .ok indices ∧
            header = "if (" ++ (renderTests dirty (wordTests indices) ++ label) ++ ") \x7b" ∧
            ReadsMarks c.generated.bindings names (wordTests indices))
          c.generated.guards (Layout.conditionsAll ls) := by
  constructor
  · intro bindings names dirty hbound
    obtain ⟨text, htext⟩ := exists_guardText hbound dirty
    obtain ⟨indices, label, hindices, -, rfl⟩ := guardText_eq_ok htext
    refine ⟨indices, " /* " ++ ", ".intercalate label ++ " */", hindices, ?_, testsFor_wordTests hindices⟩
    rw [htext, String.append_assoc, String.append_assoc, String.append_assoc]
  · intro options template c hc
    obtain ⟨d, -, hgenerate⟩ := exists_generated_of_compile hc
    obtain ⟨hnum, ls, hls, htext⟩ := exists_layout_of_generate hgenerate
    refine ⟨ls, hls, htext, (conditions_layout hls).imp ?_⟩
    rintro names header ⟨dirty, text, htext, rfl⟩
    obtain ⟨indices, label, hindices, -, rfl⟩ := guardText_eq_ok htext
    refine ⟨dirty, indices, " /* " ++ ", ".intercalate label ++ " */", hindices, ?_,
      (testsFor_wordTests hindices).readsMarks hnum⟩
    simp only [String.append_assoc]

/-- A declaration that reads 33 names has a guard of two words; a negative index and one far beyond
32 bits have their tests too. -/
theorem guards_read_marks_two_words :
    (∃ indices label, Bindings.indices [("a", -1), ("b", 2 ^ 40)] ["b", "a"] = .ok indices ∧
      guardText [("a", -1), ("b", 2 ^ 40)] ["b", "a"] "dirty" =
        .ok (renderTests "dirty" (wordTests indices) ++ label) ∧
      TestsFor [("a", -1), ("b", 2 ^ 40)] ["b", "a"] (wordTests indices)) ∧
    ∃ c, compile .default "<script>$: z=[A,B,C,D,E,F,G,H,I,J,K,L,M,N,O,P,Q,R,S,T,U,V,W,X,Y,Z,a,b,c,d,e,f,g]</script>" =
        .ok c ∧ wordCount c.generated.bindings = 2 ∧ c.generated.guards.map List.length = [33] ∧
      ∃ ls, c.generated.layout Options.default.format = .ok ls ∧
        List.Forall₂ (fun names header => ∃ dirty indices label,
            c.generated.bindings.indices names = .ok indices ∧
            header = "if (" ++ (renderTests dirty (wordTests indices) ++ label) ++ ") \x7b" ∧
            ReadsMarks c.generated.bindings names (wordTests indices))
          c.generated.guards (Layout.conditionsAll ls) := by
  refine ⟨guards_read_marks.1 _ _ _ (by decide), ?_⟩
  have hrun : ((compile .default
      "<script>$: z=[A,B,C,D,E,F,G,H,I,J,K,L,M,N,O,P,Q,R,S,T,U,V,W,X,Y,Z,a,b,c,d,e,f,g]</script>").toOption.any fun c =>
        wordCount c.generated.bindings == 2 && c.generated.guards.map List.length == [33]) = true := by
    decide +kernel
  obtain ⟨c, hc, hrun⟩ := (Option.any_eq_true _ _).1 hrun
  rw [toOption_eq_some_iff] at hc
  simp only [Bool.and_eq_true, beq_iff_eq] at hrun
  obtain ⟨ls, hls, -, hguards⟩ := guards_read_marks.2 _ _ c hc
  exact ⟨c, hc, hrun.1, hrun.2, ls, hls, hguards⟩

end ReactiveTemplate
