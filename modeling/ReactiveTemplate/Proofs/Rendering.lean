/-
**Rendering a patch piece by piece.**

A patch is a list of insertions.  Every insertion has a rank, and a slice of the source takes the
insertions whose rank lies in an interval that its two ends give.  Hence slices that follow each other
share the insertions among them, and what is rendered for the whole is what is rendered for the parts,
one after the other.  Together with the facts about bytes and characters, this reduces the text of a
slice to the texts of its parts.

Main definitions:

* `ReactiveTemplate.Script.Patch.between` — the insertions that a slice takes, in order.

Main results:

* `ReactiveTemplate.pairwise_sortBy`, `ReactiveTemplate.sortBy_eq_self` — sorting sorts, and leaves a
  sorted list as it is;
* `ReactiveTemplate.sortBy_of_perm` — elements with different keys are sorted alike in any order;
* `ReactiveTemplate.Script.Patch.apply_append` — slices that follow each other are rendered apart;
* `ReactiveTemplate.Script.bytesBetween_bytes` — the bytes between two boundaries are a text's;
* `ReactiveTemplate.Text.decode?_bytes` — the bytes of a text spell it.
-/

import Mathlib.Data.List.Sort
import ReactiveTemplate.Proofs.Extents.Placed
import ReactiveTemplate.Script.Patch

set_option relaxedAutoImplicit false
set_option autoImplicit false

namespace ReactiveTemplate

/-! ### Sorting -/

section Sorting

variable {α κ : Type} [LinearOrder κ] {key : α → κ}

theorem pairwise_insertBy {x : α} {ys : List α} (h : ys.Pairwise fun a b => key a ≤ key b) :
    (insertBy key x ys).Pairwise fun a b => key a ≤ key b := by
  induction ys with
  | nil => exact List.pairwise_singleton _ _
  | cons y ys ih =>
      obtain ⟨hy, hys⟩ := List.pairwise_cons.1 h
      rw [insertBy]
      split
      · next hlt =>
          refine List.pairwise_cons.2 ⟨fun z hz => ?_, ih hys⟩
          rcases List.mem_cons.1 ((perm_insertBy key x ys).mem_iff.1 hz) with rfl | hz
          · exact hlt.le
          · exact hy z hz
      · next hlt =>
          refine List.pairwise_cons.2 ⟨fun z hz => ?_, h⟩
          rcases List.mem_cons.1 hz with rfl | hz
          · exact not_lt.1 hlt
          · exact (not_lt.1 hlt).trans (hy z hz)

/-- Sorting sorts. -/
theorem pairwise_sortBy (xs : List α) : (sortBy key xs).Pairwise fun a b => key a ≤ key b := by
  induction xs with
  | nil => exact List.Pairwise.nil
  | cons x xs ih => exact pairwise_insertBy ih

/-- Sorting leaves a sorted list as it is. -/
theorem sortBy_eq_self {xs : List α} (h : xs.Pairwise fun a b => key a ≤ key b) :
    sortBy key xs = xs := by
  induction xs with
  | nil => rfl
  | cons x xs ih =>
      obtain ⟨hx, hxs⟩ := List.pairwise_cons.1 h
      have hcons : sortBy key (x :: xs) = insertBy key x (sortBy key xs) := rfl
      rw [hcons, ih hxs]
      cases xs with
      | nil => rfl
      | cons y ys => rw [insertBy, if_neg (not_lt.2 (hx y List.mem_cons_self))]

/-- Lists of the same elements, which have different keys, are sorted to the same list. -/
theorem sortBy_of_perm {xs ys : List α} (h : xs.Perm ys) (hkeys : ∀ a ∈ xs, ∀ b ∈ xs, key a = key b → a = b) :
    sortBy key xs = sortBy key ys := by
  have hperm : (sortBy key xs).Perm (sortBy key ys) :=
    (perm_sortBy key xs).trans (h.trans (perm_sortBy key ys).symm)
  refine hperm.eq_of_pairwise ?_ (pairwise_sortBy xs) (pairwise_sortBy ys)
  intro a b ha hb hab hba
  rw [mem_sortBy] at ha hb
  exact hkeys a ha b (h.mem_iff.2 hb) (le_antisymm hab hba)

/-- In a sorted list, the elements with keys in two adjacent intervals are those of the first one and
then those of the second one. -/
theorem filter_interval_append {a b c : κ} {xs : List α} (hab : a ≤ b) (hbc : b ≤ c)
    (h : xs.Pairwise fun x y => key x ≤ key y) :
    (xs.filter fun x => a < key x ∧ key x ≤ c) =
      (xs.filter fun x => a < key x ∧ key x ≤ b) ++ xs.filter fun x => b < key x ∧ key x ≤ c := by
  induction xs with
  | nil => rfl
  | cons x xs ih =>
      obtain ⟨hx, hxs⟩ := List.pairwise_cons.1 h
      rcases le_or_gt (key x) b with hle | hgt
      · -- the element is in the first interval or before it
        have hnot : ¬b < key x := not_lt.2 hle
        have hc : key x ≤ c := hle.trans hbc
        by_cases ha : a < key x
        · simpa [ha, hle, hc, hnot] using ih hxs
        · simpa [ha, hnot] using ih hxs
      · -- neither the element nor anything behind it is in the first interval
        have hby : ∀ y ∈ x :: xs, b < key y :=
          List.forall_mem_cons.2 ⟨hgt, fun y hy => hgt.trans_le (hx y hy)⟩
        have hnil : ((x :: xs).filter fun x => a < key x ∧ key x ≤ b) = [] :=
          List.filter_eq_nil_iff.2 fun y hy => by simp [hby y hy]
        rw [hnil, List.nil_append]
        exact List.filter_congr fun y hy => by simp [hby y hy, hab.trans_lt (hby y hy)]

end Sorting

/-! ### Bytes -/

namespace Text

variable {text : List Char} {a b : Nat}

@[simp] theorem bytes_append (cs ds : List Char) : bytes (cs ++ ds) = bytes cs ++ bytes ds :=
  List.flatMap_append

/-- The bytes of a text spell it. -/
theorem decode?_bytes (cs : List Char) : decode? (bytes cs) = some (String.ofList cs) := by
  have harray : (⟨(bytes cs).toArray⟩ : ByteArray) = cs.utf8Encode := by
    rw [List.utf8Encode, ByteArray.ext_iff, List.data_toByteArray]
    rfl
  rw [decode?, harray, String.fromUTF8?, dif_pos ByteArray.isValidUTF8_utf8Encode]
  rfl

/-- A text cut at two boundaries. -/
theorem Boundary.split (ha : Boundary text a) (hb : Boundary text b) (hab : a ≤ b) :
    ∃ before between after, text = before ++ (between ++ after) ∧ byteLength before = a ∧
      byteLength before + byteLength between = b := by
  obtain ⟨x, y, rfl, rfl⟩ := ha
  obtain ⟨w, z, heq, rfl⟩ := hb
  rcases List.append_eq_append_iff.1 heq with ⟨m, rfl, rfl⟩ | ⟨m, rfl, rfl⟩
  · exact ⟨x, m, z, rfl, rfl, by simp⟩
  · -- the second cut is not before the first one, so nothing is between them
    have hm : m = [] := by
      cases m with
      | nil => rfl
      | cons c m =>
          have := c.utf8Size_pos
          simp only [byteLength_append, byteLength_cons] at hab
          omega
    subst hm
    exact ⟨w, [], y, by simp, by simp, by simp⟩

end Text

namespace Script

variable {text : List Char} {a b c : Nat}

/-- Bytes between offsets that follow each other. -/
theorem bytesBetween_append (source : List UInt8) (hab : a ≤ b) (hbc : b ≤ c) :
    bytesBetween source a b ++ bytesBetween source b c = bytesBetween source a c := by
  have hdrop : source.drop b = (source.drop a).drop (b - a) := by
    rw [List.drop_drop, Nat.add_sub_cancel' hab]
  have hlen : c - a = (b - a) + (c - b) := by omega
  rw [bytesBetween, bytesBetween, bytesBetween, hdrop, hlen, List.take_add]

/-- The bytes of a text between two boundaries are those of the characters between them. -/
theorem bytesBetween_bytes (ha : Text.Boundary text a) (hb : Text.Boundary text b) (hab : a ≤ b) :
    bytesBetween (Text.bytes text) a b = Text.bytes (Text.byteSlice text a b) := by
  obtain ⟨before, between, after, rfl, rfl, rfl⟩ := ha.split hb hab
  rw [Text.byteSlice_append, bytesBetween, Text.bytes_append, Text.bytes_append,
    ← Text.length_bytes before, List.drop_left, Nat.add_sub_cancel_left, ← Text.length_bytes between,
    List.take_left]

/-! ### Slices -/

/-- A slice takes the insertions whose rank lies between what its ends give. -/
theorem Insertion.within_iff {i : Insertion} :
    i.within a b = true ↔ 2 * a < i.rank ∧ i.rank ≤ 2 * b := by
  obtain ⟨offset, side, text⟩ := i
  cases side <;> simp [Insertion.within, Insertion.rank] <;> omega

theorem Insertion.two_mul_offset_le_rank (i : Insertion) : 2 * i.offset ≤ i.rank := by
  unfold Insertion.rank
  split <;> omega

theorem Insertion.rank_le_two_mul_offset (i : Insertion) : i.rank ≤ 2 * i.offset + 1 := by
  unfold Insertion.rank
  split <;> omega

/-- The insertions that a slice takes, in order. -/
def Patch.between (p : Patch) (a b : Nat) : List Insertion :=
  p.sorted.filter (Insertion.within a b)

namespace Patch

theorem mem_between {p : Patch} {i : Insertion} :
    i ∈ p.between a b ↔ i ∈ p.insertions ∧ 2 * a < i.rank ∧ i.rank ≤ 2 * b := by
  rw [between, List.mem_filter, Insertion.within_iff, sorted, mem_sortBy]

/-- A slice takes what the two parts of it take. -/
theorem between_append (p : Patch) (hab : a ≤ b) (hbc : b ≤ c) :
    p.between a c = p.between a b ++ p.between b c := by
  have hwithin : ∀ a b, Insertion.within a b = fun i => decide (2 * a < i.rank ∧ i.rank ≤ 2 * b) := by
    intro a b
    funext i
    rw [Bool.eq_iff_iff, Insertion.within_iff, decide_eq_true_iff]
  rw [between, between, between, hwithin, hwithin, hwithin]
  exact filter_interval_append (by omega) (by omega) (pairwise_sortBy _)

/-- The insertions of two slices that follow each other are rendered apart. -/
theorem renderFrom_append (source : List UInt8) {is js : List Insertion} (hab : a ≤ b) (hbc : b ≤ c)
    (his : ∀ i ∈ is, i.offset ≤ b) (hjs : ∀ j ∈ js, b ≤ j.offset) :
    renderFrom source c a (is ++ js) = renderFrom source b a is ++ renderFrom source c b js := by
  induction is generalizing a with
  | nil =>
      cases js with
      | nil => exact (bytesBetween_append source hab hbc).symm
      | cons j js =>
          have hj := hjs j List.mem_cons_self
          simp only [List.nil_append, renderFrom]
          rw [← bytesBetween_append source hab hj, List.append_assoc]
  | cons i is ih =>
      have hi := his i List.mem_cons_self
      simp only [List.cons_append, renderFrom, List.append_assoc]
      rw [ih hi fun j hj => his j (List.mem_cons_of_mem i hj)]

/-- Slices that follow each other are rendered apart: no insertion is lost and none is rendered
twice. -/
theorem apply_append (p : Patch) (source : List UInt8) (hab : a ≤ b) (hbc : b ≤ c) :
    p.apply source a c = p.apply source a b ++ p.apply source b c := by
  change renderFrom source c a (p.between a c) =
    renderFrom source b a (p.between a b) ++ renderFrom source c b (p.between b c)
  rw [p.between_append hab hbc]
  refine renderFrom_append source hab hbc (fun i hi => ?_) fun j hj => ?_
  · have := (mem_between.1 hi).2.2
    have := i.two_mul_offset_le_rank
    omega
  · have := (mem_between.1 hj).2.1
    have := j.rank_le_two_mul_offset
    omega

/-- A slice that takes no insertion is rendered as it is. -/
theorem apply_of_between_eq_nil {p : Patch} (source : List UInt8) (h : p.between a b = []) :
    p.apply source a b = bytesBetween source a b := by
  change renderFrom source b a (p.between a b) = _
  rw [h]
  rfl

end Patch

end Script

end ReactiveTemplate
