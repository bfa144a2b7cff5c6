/-
**Slices of a patched source, and the order in which texts were put in.**

A source is rendered slice by slice, and what is put around one part of it is recorded without a look at
what is put around another.  Two laws make that work.  A slice is rendered as its two parts are, one after
the other, so that no insertion is lost at a cut and none comes twice, also where several stand at the cut,
a part is empty or the offsets lie behind the end of the source.  And texts around ranges that do not meet
come out the same in whatever order they were recorded: at one offset there is at most one text that closes
a range and one that opens a range, and these differ in rank.

Main definitions:

* `ReactiveTemplate.Script.Wrapping`, `ReactiveTemplate.Script.Patch.wrapAll` — texts around ranges;
* `ReactiveTemplate.Script.Apart` — ranges that hold something and do not meet;
* `ReactiveTemplate.Script.Interleaves` — a slice with texts among its bytes.

Main results:

* `ReactiveTemplate.sortBy_append_of_perm` — elements with different keys are sorted alike in any order;
* `ReactiveTemplate.Script.Apart.nodup_ranks` — texts around such ranges have different ranks;
* `ReactiveTemplate.Script.Patch.interleaves_apply` — what a slice is rendered as;
* `ReactiveTemplate.Script.apply_cuts_and_commutes` — **slices are rendered part by part, and ranges in any
  order**.
-/

import Mathlib.Data.List.Nodup
import ReactiveTemplate.Proofs.Rendering

set_option relaxedAutoImplicit false
set_option autoImplicit false

namespace ReactiveTemplate

/-! ### Sorting in any order -/

section Sorting

variable {α κ : Type} [LinearOrder κ] {key : α → κ}

/-- What is sorted in front does not matter: elements of equal keys stay in front there. -/
theorem sortBy_append_of_perm (before : List α) {xs ys : List α} (h : xs.Perm ys)
    (hkeys : (xs.map key).Nodup) : sortBy key (before ++ xs) = sortBy key (before ++ ys) := by
  have hsorted : ∀ zs, sortBy key (before ++ zs) = before.foldr (insertBy key) (sortBy key zs) :=
    fun zs => List.foldr_append
  rw [hsorted, hsorted, sortBy_of_perm h fun a ha b hb => List.inj_on_of_nodup_map hkeys ha hb]

end Sorting

namespace Script

/-! ### Texts around ranges -/

/-- A range of the source, with texts to be put around it. -/
structure Wrapping where
  /-- Byte offset of the range. -/
  start : Nat
  /-- Byte offset behind the range. -/
  stop : Nat
  /-- The text in front of the range. -/
  opening : String
  /-- The text behind the range. -/
  closing : String
  deriving DecidableEq, Repr

/-- The insertions that put texts around a range. -/
def Wrapping.insertions (w : Wrapping) : List Insertion :=
  [⟨w.start, .before, Text.bytes w.opening.toList⟩, ⟨w.stop, .after, Text.bytes w.closing.toList⟩]

/-- Records texts around several ranges, one after the other. -/
def Patch.wrapAll (p : Patch) (ws : List Wrapping) : Patch :=
  ws.foldl (fun p w => p.wrap w.start w.stop w.opening w.closing) p

/-- Ranges that hold something and do not meet. -/
structure Apart (ws : List Wrapping) : Prop where
  nonempty : ∀ w ∈ ws, w.start < w.stop
  disjoint : ws.Pairwise fun w v => w.stop ≤ v.start ∨ v.stop ≤ w.start

theorem Patch.insertions_wrapAll (p : Patch) (ws : List Wrapping) :
    (p.wrapAll ws).insertions = p.insertions ++ ws.flatMap Wrapping.insertions := by
  induction ws generalizing p with
  | nil => simp [wrapAll]
  | cons w ws ih =>
      have hcons : p.wrapAll (w :: ws) = (p.wrap w.start w.stop w.opening w.closing).wrapAll ws := rfl
      rw [hcons, ih, List.flatMap_cons]
      simp [wrap, insert, Wrapping.insertions]

/-- No two of the texts around ranges that do not meet have the same rank. -/
theorem Apart.nodup_ranks {ws : List Wrapping} (h : Apart ws) :
    ((ws.flatMap Wrapping.insertions).map Insertion.rank).Nodup := by
  rw [List.Nodup, List.pairwise_map, List.pairwise_flatMap]
  constructor
  · intro w hw
    have hlt := h.nonempty w hw
    simp only [Wrapping.insertions, List.pairwise_cons, List.mem_singleton, forall_eq, Insertion.rank,
      List.not_mem_nil, false_imp_iff, implies_true, List.Pairwise.nil, and_true]
    omega
  · refine h.disjoint.imp_of_mem ?_
    intro w v hw hv hwv i hi j hj
    have hw' := h.nonempty w hw
    have hv' := h.nonempty v hv
    simp only [Wrapping.insertions, List.mem_cons, List.not_mem_nil, or_false] at hi hj
    rcases hi with rfl | rfl <;> rcases hj with rfl | rfl <;> simp only [Insertion.rank] <;> omega

/-- Texts around ranges that do not meet are sorted alike in whatever order they were recorded. -/
theorem Patch.sorted_wrapAll_of_perm (p : Patch) {ws ws' : List Wrapping} (h : Apart ws)
    (hperm : ws.Perm ws') : (p.wrapAll ws).sorted = (p.wrapAll ws').sorted := by
  rw [sorted, sorted, insertions_wrapAll, insertions_wrapAll]
  exact sortBy_append_of_perm _ (hperm.flatMap_right _) h.nodup_ranks

/-! ### What a slice holds -/

/-- Bytes that are made of a slice and some texts: the slice is cut into pieces, and each text stands once,
in order, behind its piece. -/
inductive Interleaves : List UInt8 → List (List UInt8) → List UInt8 → Prop
  | nil (slice : List UInt8) : Interleaves slice [] slice
  | cons (piece : List UInt8) {slice text out : List UInt8} {texts : List (List UInt8)}
      (h : Interleaves slice texts out) :
      Interleaves (piece ++ slice) (text :: texts) (piece ++ (text ++ out))

theorem interleaves_renderFrom (source : List UInt8) {stop : Nat} :
    ∀ {is : List Insertion} {cursor : Nat}, cursor ≤ stop → (∀ i ∈ is, cursor ≤ i.offset ∧ i.offset ≤ stop) →
      (is.Pairwise fun i j => i.offset ≤ j.offset) →
      Interleaves (bytesBetween source cursor stop) (is.map Insertion.text)
        (Patch.renderFrom source stop cursor is) := by
  intro is
  induction is with
  | nil =>
      intro cursor hcursor hbounds hsorted
      exact .nil _
  | cons i is ih =>
      intro cursor hcursor hbounds hsorted
      obtain ⟨hi, his⟩ := List.forall_mem_cons.1 hbounds
      obtain ⟨hle, hsorted⟩ := List.pairwise_cons.1 hsorted
      rw [← bytesBetween_append source hi.1 hi.2]
      exact .cons _ (ih hi.2 (fun j hj => ⟨hle j hj, (his j hj).2⟩) hsorted)

/-- A slice is rendered as its bytes, with the texts of the insertions that it takes among them. -/
theorem Patch.interleaves_apply (p : Patch) (source : List UInt8) {start stop : Nat} (h : start ≤ stop) :
    Interleaves (bytesBetween source start stop) ((p.between start stop).map Insertion.text)
      (p.apply source start stop) := by
  refine interleaves_renderFrom source h ?_ ?_
  · intro i hi
    obtain ⟨-, hlo, hhi⟩ := mem_between.1 hi
    have := i.two_mul_offset_le_rank
    have := i.rank_le_two_mul_offset
    omega
  · have hsorted : (p.between start stop).Pairwise fun i j => i.rank ≤ j.rank :=
      (pairwise_sortBy p.insertions).filter _
    refine hsorted.imp ?_
    intro i j hij
    have := i.two_mul_offset_le_rank
    have := j.rank_le_two_mul_offset
    omega

/-- Of two slices that follow each other, exactly one takes an insertion that the whole takes. -/
theorem Insertion.within_cut (i : Insertion) {start mid stop : Nat} (hstart : start ≤ mid)
    (hstop : mid ≤ stop) :
    (i.within start stop = true ↔ i.within start mid = true ∨ i.within mid stop = true) ∧
      ¬(i.within start mid = true ∧ i.within mid stop = true) := by
  simp only [Insertion.within_iff]
  constructor
  · constructor
    · rintro ⟨hlo, hhi⟩
      rcases Nat.lt_or_ge (2 * mid) i.rank with hmid | hmid
      · exact .inr ⟨hmid, hhi⟩
      · exact .inl ⟨hlo, hmid⟩
    · rintro (⟨hlo, hhi⟩ | ⟨hlo, hhi⟩) <;> constructor <;> omega
  · rintro ⟨⟨-, hhi⟩, hlo, -⟩
    omega

/-- **Slices are rendered part by part, and ranges in any order.**  Whatever was inserted where, a slice
that is cut in two is rendered as the first part and then the second: it is its bytes with the texts of the
insertions that it takes among them, and each insertion that the whole takes is taken by exactly one of the
parts.  Texts around ranges that hold something and do not meet are rendered alike in every slice, in
whatever order they were recorded behind what is there. -/
theorem apply_cuts_and_commutes (p : Patch) (source : List UInt8) :
    (∀ start mid stop : Nat, start ≤ mid → mid ≤ stop →
      p.apply source start stop = p.apply source start mid ++ p.apply source mid stop ∧
      Interleaves (bytesBetween source start stop) ((p.between start stop).map Insertion.text)
        (p.apply source start stop) ∧
      p.between start stop = p.between start mid ++ p.between mid stop ∧
      ∀ i ∈ p.insertions,
        (i.within start stop = true ↔ i.within start mid = true ∨ i.within mid stop = true) ∧
          ¬(i.within start mid = true ∧ i.within mid stop = true)) ∧
    ∀ ws ws' : List Wrapping, Apart ws → ws.Perm ws' → ∀ start stop : Nat,
      (p.wrapAll ws).apply source start stop = (p.wrapAll ws').apply source start stop := by
  constructor
  · intro start mid stop hstart hstop
    exact ⟨p.apply_append source hstart hstop, p.interleaves_apply source (hstart.trans hstop),
      p.between_append hstart hstop, fun i _ => i.within_cut hstart hstop⟩
  · intro ws ws' hapart hperm start stop
    rw [Patch.apply, Patch.apply, p.sorted_wrapAll_of_perm hapart hperm]

/-- Two ranges that touch, behind texts at the cut between them: the cut shares the four texts at offset 2
among its sides, and the ranges may be recorded in the other order. -/
theorem apply_cuts_and_commutes_touching :
    let p : Patch := (Patch.empty.insert 2 .before "<").insert 2 .after ">"
    let source := Text.bytes "abcd".toList
    let left : Wrapping := ⟨0, 2, "(", ")"⟩
    let right : Wrapping := ⟨2, 4, "[", "]"⟩
    Apart [left, right] ∧ [left, right].Perm [right, left] ∧
      (p.wrapAll [left, right]).apply source 0 2 = Text.bytes "(ab>)".toList ∧
      (p.wrapAll [left, right]).apply source 2 9 = Text.bytes "<[cd]".toList ∧
      (p.wrapAll [left, right]).apply source 0 9 =
        (p.wrapAll [left, right]).apply source 0 2 ++ (p.wrapAll [left, right]).apply source 2 9 ∧
      (p.wrapAll [left, right]).apply source 0 9 = (p.wrapAll [right, left]).apply source 0 9 := by
  intro p source left right
  have hapart : Apart [left, right] := ⟨by decide, by decide⟩
  have hperm : [left, right].Perm [right, left] := .swap _ _ _
  have hcut := (apply_cuts_and_commutes (p.wrapAll [left, right]) source).1 0 2 9 (by decide) (by decide)
  have horder := (apply_cuts_and_commutes p source).2 [left, right] [right, left] hapart hperm 0 9
  exact ⟨hapart, hperm, by decide +kernel, by decide +kernel, hcut.1, horder⟩

end Script

end ReactiveTemplate
