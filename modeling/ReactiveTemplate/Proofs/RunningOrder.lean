/-
**The running order of reactive declarations.**

`ReactiveTemplate.runningOrder` counts, for each declaration, the declarations that it waits for, and
keeps a queue of those that wait for none.  This module says what comes out of the loop, in terms of
the graph whose edges lead from the writer of a name to its readers.

The loop is followed through one invariant: after the declarations in `done` have run, the count of
every other place is the number of its predecessors outside `done`, and the queue holds exactly the
places that are ready, each before those that are taken later.  One run keeps the invariant, so the
first place of the queue is always the least one that is ready.  When the queue is empty, every place
that is left has a predecessor that is left, and walking back from predecessor to predecessor closes
a circle.

Main definitions:

* `ReactiveTemplate.Feeds`, `ReactiveTemplate.Cyclic` — the edges of the graph, and its circles;
* `ReactiveTemplate.Ready`, `ReactiveTemplate.LeastReady` — the places that may run after others have
  run, and the first of them in source order;
* `ReactiveTemplate.Progress.Tracks` — the invariant of the loop;
* `ReactiveTemplate.Circle` — a closed walk along edges through distinct places.

Main results:

* `ReactiveTemplate.Progress.Tracks.next` — one run keeps the invariant;
* `ReactiveTemplate.Progress.Tracks.leastOrder` — the loop takes the least ready place each time, until
  none is ready;
* `ReactiveTemplate.findCycle?_circle` — among places that are stuck, a circle is found;
* `ReactiveTemplate.runningOrder_least_ready_or_cyclic` — **there is an order exactly when there is no
  circle**, and the order is the least one.
-/

import Mathlib.Data.List.Nodup
import Mathlib.Data.List.Perm.Subperm
import Mathlib.Data.List.Range
import Mathlib.Logic.Relation
import ReactiveTemplate.Generation.Order

set_option relaxedAutoImplicit false
set_option autoImplicit false

namespace ReactiveTemplate

/-! ### The graph of declarations -/

/-- The declaration at place `i` writes a name that the one at another place `j` reads. -/
def Feeds (ds : List Dependent) (i j : Nat) : Prop :=
  i ≠ j ∧ ∃ d e, ds[i]? = some d ∧ ds[j]? = some e ∧ ∃ name ∈ d.assignees, name ∈ e.dependencies

/-- Some declaration waits for itself along edges. -/
def Cyclic (ds : List Dependent) : Prop :=
  ∃ i, Relation.TransGen (Feeds ds) i i

theorem Dependent.feeds_iff {d e : Dependent} :
    d.feeds e = true ↔ ∃ name ∈ d.assignees, name ∈ e.dependencies := by
  simp [Dependent.feeds]

theorem feeds_iff {ds : List Dependent} {i j : Nat} : feeds ds i j = true ↔ Feeds ds i j := by
  unfold feeds Feeds
  rw [Bool.and_eq_true, bne_iff_ne]
  refine and_congr_right fun _ => ?_
  cases hi : ds[i]? with
  | none => simp
  | some d =>
      cases hj : ds[j]? with
      | none => simp
      | some e => simp [Dependent.feeds_iff]

theorem Feeds.ne {ds : List Dependent} {i j : Nat} (h : Feeds ds i j) : i ≠ j := h.1

theorem Feeds.left_lt {ds : List Dependent} {i j : Nat} (h : Feeds ds i j) : i < ds.length := by
  obtain ⟨-, d, e, hi, -, -⟩ := h
  exact (List.getElem?_eq_some_iff.1 hi).1

theorem Feeds.right_lt {ds : List Dependent} {i j : Nat} (h : Feeds ds i j) : j < ds.length := by
  obtain ⟨-, d, e, -, hj, -⟩ := h
  exact (List.getElem?_eq_some_iff.1 hj).1

@[simp] theorem mem_allPlaces {ds : List Dependent} {i : Nat} : i ∈ allPlaces ds ↔ i < ds.length :=
  List.mem_range

theorem nodup_allPlaces (ds : List Dependent) : (allPlaces ds).Nodup := List.nodup_range

theorem mem_successors {ds : List Dependent} {i j : Nat} : j ∈ successors ds i ↔ Feeds ds i j := by
  rw [successors, List.mem_filter, mem_allPlaces, feeds_iff]
  exact ⟨fun h => h.2, fun h => ⟨h.right_lt, h⟩⟩

theorem mem_predecessors {ds : List Dependent} {places : List Nat} {i j : Nat} :
    i ∈ predecessors ds places j ↔ i ∈ places ∧ Feeds ds i j := by
  rw [predecessors, List.mem_filter, feeds_iff]

/-! ### Ready places -/

/-- After the places in `done` have run, a place may run: it has not, and all its predecessors have. -/
structure Ready (ds : List Dependent) (done : List Nat) (j : Nat) : Prop where
  lt_length : j < ds.length
  not_done : j ∉ done
  fed : ∀ i, Feeds ds i j → i ∈ done

/-- The place that runs next: of the ready ones, the least by source index and then by place. -/
structure LeastReady (ds : List Dependent) (done : List Nat) (i : Nat) : Prop where
  ready : Ready ds done i
  least : ∀ j, Ready ds done j →
    sourceIndex ds i < sourceIndex ds j ∨ (sourceIndex ds i = sourceIndex ds j ∧ i ≤ j)

theorem LeastReady.nodup_append {ds : List Dependent} {done : List Nat} {i : Nat}
    (h : LeastReady ds done i) (hd : done.Nodup) : (done ++ [i]).Nodup := by
  rw [List.nodup_append_comm]
  exact List.nodup_cons.2 ⟨h.ready.not_done, hd⟩

theorem runsBefore_iff {ds : List Dependent} {i j : Nat} :
    runsBefore ds i j = true ↔
      sourceIndex ds i < sourceIndex ds j ∨ (sourceIndex ds i = sourceIndex ds j ∧ i < j) := by
  simp [runsBefore]

theorem runsBefore_trans {ds : List Dependent} {i j k : Nat} (hij : runsBefore ds i j = true)
    (hjk : runsBefore ds j k = true) : runsBefore ds i k = true := by
  rw [runsBefore_iff] at *
  omega

/-- Of two places, one runs before the other. -/
theorem runsBefore_of_not {ds : List Dependent} {i j : Nat} (h : ¬ runsBefore ds i j = true)
    (hne : i ≠ j) : runsBefore ds j i = true := by
  rw [runsBefore_iff] at *
  omega

theorem runsBefore_irrefl {ds : List Dependent} (i : Nat) : ¬ runsBefore ds i i = true := by
  rw [runsBefore_iff]
  omega

/-! ### The queue -/

/-- A queue in the order in which its places run. -/
abbrev InTurn (ds : List Dependent) (queue : List Nat) : Prop :=
  queue.Pairwise fun i j => runsBefore ds i j = true

@[simp] theorem mem_enqueue {ds : List Dependent} {j k : Nat} {queue : List Nat} :
    k ∈ enqueue ds j queue ↔ k = j ∨ k ∈ queue := by
  induction queue with
  | nil => simp [enqueue]
  | cons i queue ih =>
      rw [enqueue]
      split
      · rw [List.mem_cons, ih, List.mem_cons]
        exact or_left_comm
      · simp

/-- A place that is not in the queue takes its turn there. -/
theorem InTurn.enqueue {ds : List Dependent} {j : Nat} {queue : List Nat} (h : InTurn ds queue)
    (hj : j ∉ queue) : InTurn ds (enqueue ds j queue) := by
  induction queue with
  | nil => simp [ReactiveTemplate.enqueue]
  | cons i queue ih =>
      rw [ReactiveTemplate.enqueue]
      have hi := List.pairwise_cons.1 h
      have hne : i ≠ j := fun e => hj (e ▸ List.mem_cons_self ..)
      split
      · next hij =>
        refine List.pairwise_cons.2 ⟨fun k hk => ?_, ih hi.2 fun hq => hj (List.mem_cons_of_mem _ hq)⟩
        rcases mem_enqueue.1 hk with rfl | hk
        · exact hij
        · exact hi.1 k hk
      · next hij =>
        have hji : runsBefore ds j i = true := runsBefore_of_not hij hne
        refine List.pairwise_cons.2 ⟨fun k hk => ?_, h⟩
        rcases List.mem_cons.1 hk with rfl | hk
        · exact hji
        · exact runsBefore_trans hji (hi.1 k hk)

theorem mem_foldr_enqueue {ds : List Dependent} {places : List Nat} {k : Nat} :
    k ∈ places.foldr (enqueue ds) [] ↔ k ∈ places := by
  induction places with
  | nil => simp
  | cons j places ih => rw [List.foldr_cons, mem_enqueue, ih, List.mem_cons]

theorem inTurn_foldr_enqueue {ds : List Dependent} {places : List Nat} (h : places.Nodup) :
    InTurn ds (places.foldr (enqueue ds) []) := by
  induction places with
  | nil => exact List.Pairwise.nil
  | cons j places ih =>
      have hj := List.nodup_cons.1 h
      exact (ih hj.2).enqueue fun hm => hj.1 (mem_foldr_enqueue.1 hm)

/-! ### One place counts down -/

namespace Progress

theorem count_release {ds : List Dependent} {s : Progress} {j : Nat} (hj : j < s.waiting.length)
    (k : Nat) : (s.release ds j).count k = if k = j then s.count j - 1 else s.count k := by
  unfold release count
  by_cases h : k = j
  · subst h
    simp [List.getD_eq_getElem?_getD, hj]
  · simp [List.getD_eq_getElem?_getD, h, List.getElem?_set_ne (Ne.symm h)]

theorem mem_queue_release {ds : List Dependent} {s : Progress} {j k : Nat} :
    k ∈ (s.release ds j).queue ↔ k ∈ s.queue ∨ (k = j ∧ s.count j - 1 = 0) := by
  unfold release
  by_cases h : s.count j - 1 = 0
  · simp [h, or_comm]
  · simp [h]

@[simp] theorem length_waiting_release (ds : List Dependent) (s : Progress) (j : Nat) :
    (s.release ds j).waiting.length = s.waiting.length := by
  simp [release]

theorem lt_length_release {ds : List Dependent} {s : Progress} {j : Nat} {js : List Nat}
    (hlt : ∀ i ∈ j :: js, i < s.waiting.length) :
    ∀ i ∈ js, i < (s.release ds j).waiting.length := by
  intro i hi
  rw [length_waiting_release]
  exact hlt i (List.mem_cons_of_mem _ hi)

theorem inTurn_release {ds : List Dependent} {s : Progress} {j : Nat} (h : InTurn ds s.queue)
    (hj : j ∉ s.queue) : InTurn ds (s.release ds j).queue := by
  unfold release
  by_cases hc : s.count j - 1 = 0
  · simpa [hc] using h.enqueue hj
  · simpa [hc] using h

/-! ### All successors count down -/

theorem length_waiting_foldl_release (ds : List Dependent) (js : List Nat) (s : Progress) :
    (js.foldl (release ds) s).waiting.length = s.waiting.length := by
  induction js generalizing s with
  | nil => rfl
  | cons j js ih => rw [List.foldl_cons, ih, length_waiting_release]

theorem count_foldl_release {ds : List Dependent} {js : List Nat} (hnd : js.Nodup) {s : Progress}
    (hlt : ∀ j ∈ js, j < s.waiting.length) (k : Nat) :
    (js.foldl (release ds) s).count k = if k ∈ js then s.count k - 1 else s.count k := by
  induction js generalizing s with
  | nil => simp
  | cons j js ih =>
      obtain ⟨hj, hnd⟩ := List.nodup_cons.1 hnd
      rw [List.foldl_cons, ih hnd (lt_length_release hlt), count_release (hlt j (List.mem_cons_self ..))]
      -- `js` has no place twice, so `j` counts down only once
      by_cases hk : k = j
      · subst hk
        simp [hj]
      · simp [hk]

theorem mem_queue_foldl_release {ds : List Dependent} {js : List Nat} (hnd : js.Nodup)
    {s : Progress} (hlt : ∀ j ∈ js, j < s.waiting.length) (k : Nat) :
    k ∈ (js.foldl (release ds) s).queue ↔ k ∈ s.queue ∨ (k ∈ js ∧ s.count k - 1 = 0) := by
  induction js generalizing s with
  | nil => simp
  | cons j js ih =>
      obtain ⟨hj, hnd⟩ := List.nodup_cons.1 hnd
      rw [List.foldl_cons, ih hnd (lt_length_release hlt), count_release (hlt j (List.mem_cons_self ..)),
        mem_queue_release, List.mem_cons]
      by_cases hk : k = j
      · subst hk
        simp [hj]
      · simp [hk]

theorem inTurn_foldl_release {ds : List Dependent} {js : List Nat} (hnd : js.Nodup)
    {s : Progress} (h : InTurn ds s.queue) (hq : ∀ j ∈ js, j ∉ s.queue) :
    InTurn ds (js.foldl (release ds) s).queue := by
  induction js generalizing s with
  | nil => exact h
  | cons j js ih =>
      obtain ⟨hj, hnd⟩ := List.nodup_cons.1 hnd
      rw [List.foldl_cons]
      refine ih hnd (inTurn_release h (hq j (List.mem_cons_self ..))) fun i hi hm => ?_
      -- what is in the queue now was there before, or is `j`, which is not among the others
      rcases mem_queue_release.1 hm with hm | ⟨rfl, -⟩
      · exact hq i (List.mem_cons_of_mem _ hi) hm
      · exact hj hi

end Progress

/-! ### The invariant of the loop -/

/-- The predecessors of a place that have not run. -/
def outstanding (ds : List Dependent) (done : List Nat) (j : Nat) : List Nat :=
  (predecessors ds (allPlaces ds) j).filter fun i => i ∉ done

theorem mem_outstanding {ds : List Dependent} {done : List Nat} {i j : Nat} :
    i ∈ outstanding ds done j ↔ Feeds ds i j ∧ i ∉ done := by
  rw [outstanding, List.mem_filter, mem_predecessors, mem_allPlaces, decide_eq_true_eq]
  exact ⟨fun h => ⟨h.1.2, h.2⟩, fun h => ⟨⟨h.1.left_lt, h.1⟩, h.2⟩⟩

theorem nodup_outstanding (ds : List Dependent) (done : List Nat) (j : Nat) :
    (outstanding ds done j).Nodup :=
  ((nodup_allPlaces ds).filter _).filter _

theorem length_outstanding_eq_zero_iff {ds : List Dependent} {done : List Nat} {j : Nat} :
    (outstanding ds done j).length = 0 ↔ ∀ i, Feeds ds i j → i ∈ done := by
  rw [List.length_eq_zero_iff, List.eq_nil_iff_forall_not_mem]
  refine forall_congr' fun i => ?_
  rw [mem_outstanding, not_and, not_not]

/-- When a place runs, it is struck off the predecessors that have not. -/
theorem outstanding_append (ds : List Dependent) (done : List Nat) (i j : Nat) :
    outstanding ds (done ++ [i]) j = (outstanding ds done j).erase i := by
  rw [(nodup_outstanding ds done j).erase_eq_filter, outstanding, outstanding, List.filter_filter]
  refine List.filter_congr fun k _ => ?_
  rw [Bool.eq_iff_iff]
  simp [and_comm]

/-- When a place runs, each of its successors waits for one declaration less. -/
theorem length_outstanding_append {ds : List Dependent} {done : List Nat} {i j : Nat}
    (hi : i ∉ done) :
    (outstanding ds (done ++ [i]) j).length =
      if j ∈ successors ds i then (outstanding ds done j).length - 1
      else (outstanding ds done j).length := by
  rw [outstanding_append]
  split
  · next h => exact List.length_erase_of_mem (mem_outstanding.2 ⟨mem_successors.1 h, hi⟩)
  · next h =>
    rw [List.erase_of_not_mem]
    exact fun hm => h (mem_successors.2 (mem_outstanding.1 hm).1)

/-- The state of the loop after the places in `done` have run. -/
structure Progress.Tracks (ds : List Dependent) (done : List Nat) (s : Progress) : Prop where
  length_waiting : s.waiting.length = ds.length
  /-- Whatever has run, its predecessors have run. -/
  closed : ∀ j ∈ done, ∀ i, Feeds ds i j → i ∈ done
  /-- Every other place counts the predecessors that have not run. -/
  count_eq : ∀ j < ds.length, j ∉ done → s.count j = (outstanding ds done j).length
  /-- The queue holds the ready places. -/
  mem_queue : ∀ j, j ∈ s.queue ↔ Ready ds done j
  inTurn : InTurn ds s.queue

namespace Progress

theorem count_start {ds : List Dependent} {j : Nat} (hj : j < ds.length) :
    (start ds).count j = (outstanding ds [] j).length := by
  simp [start, count, outstanding, allPlaces, List.getD_eq_getElem?_getD, hj]

/-- Before the first run the invariant holds. -/
theorem tracks_start (ds : List Dependent) : (start ds).Tracks ds [] where
  length_waiting := by simp [start, allPlaces]
  closed := by simp
  count_eq := fun j hj _ => count_start hj
  mem_queue := fun j => by
    have hq : j ∈ (start ds).queue ↔ j < ds.length ∧ (start ds).count j = 0 := by
      simp only [start, mem_foldr_enqueue, List.mem_filter, mem_allPlaces, beq_iff_eq, count]
    rw [hq]
    constructor
    · rintro ⟨hj, h⟩
      rw [count_start hj] at h
      exact ⟨hj, List.not_mem_nil, length_outstanding_eq_zero_iff.1 h⟩
    · intro h
      refine ⟨h.lt_length, ?_⟩
      rw [count_start h.lt_length]
      exact length_outstanding_eq_zero_iff.2 h.fed
  inTurn := inTurn_foldr_enqueue ((nodup_allPlaces ds).filter _)

/-- The first place of the queue is the least one that is ready. -/
theorem Tracks.leastReady {ds : List Dependent} {done : List Nat} {s : Progress} {i : Nat}
    {queue : List Nat} (h : s.Tracks ds done) (hq : s.queue = i :: queue) :
    LeastReady ds done i where
  ready := (h.mem_queue i).1 (hq ▸ List.mem_cons_self ..)
  least := by
    intro j hj
    have hm : j ∈ i :: queue := hq ▸ (h.mem_queue j).2 hj
    have hturn : InTurn ds (i :: queue) := hq ▸ h.inTurn
    rcases List.mem_cons.1 hm with rfl | hm
    · exact Or.inr ⟨rfl, Nat.le_refl _⟩
    · have := runsBefore_iff.1 ((List.pairwise_cons.1 hturn).1 j hm)
      omega

theorem next?_eq_none {ds : List Dependent} {s : Progress} (h : s.next? ds = none) :
    s.queue = [] := by
  unfold next? at h
  split at h
  · assumption
  · cases h

theorem next?_eq_some {ds : List Dependent} {s s' : Progress} {i : Nat}
    (h : s.next? ds = some (i, s')) :
    ∃ queue, s.queue = i :: queue ∧ s' = (successors ds i).foldl (release ds) ⟨s.waiting, queue⟩ := by
  unfold next? at h
  cases hq : s.queue with
  | nil => rw [hq] at h; cases h
  | cons k queue =>
      rw [hq] at h
      cases h
      exact ⟨queue, rfl, rfl⟩

/-- A place that is ready once `i` has run was in the queue already, or `i` was the last
predecessor that it waited for. -/
theorem Tracks.ready_append_iff {ds : List Dependent} {done : List Nat} {s : Progress} {i : Nat}
    {queue : List Nat} (h : s.Tracks ds done) (hq : s.queue = i :: queue) (j : Nat) :
    Ready ds (done ++ [i]) j ↔ j ∈ queue ∨ (j ∈ successors ds i ∧ s.count j - 1 = 0) := by
  have hi : Ready ds done i := (h.leastReady hq).ready
  have hcount : ∀ k < ds.length, k ∉ done → k ∈ successors ds i →
      s.count k - 1 = (outstanding ds (done ++ [i]) k).length := fun k hk hd hm => by
    rw [length_outstanding_append hi.not_done, if_pos hm, h.count_eq k hk hd]
  constructor
  · intro hj
    obtain ⟨hd, hne⟩ : j ∉ done ∧ j ≠ i := by simpa using hj.not_done
    by_cases hm : j ∈ successors ds i
    · refine Or.inr ⟨hm, ?_⟩
      rw [hcount j hj.lt_length hd hm]
      exact length_outstanding_eq_zero_iff.2 hj.fed
    · refine Or.inl ?_
      have hready : Ready ds done j := by
        refine ⟨hj.lt_length, hd, fun k hk => ?_⟩
        rcases List.mem_append.1 (hj.fed k hk) with hk' | hk'
        · exact hk'
        · rw [List.mem_singleton.1 hk'] at hk
          exact absurd (mem_successors.2 hk) hm
      have hmem : j ∈ i :: queue := hq ▸ (h.mem_queue j).2 hready
      exact (List.mem_cons.1 hmem).resolve_left hne
  · rintro (hj | ⟨hm, hc⟩)
    · have hready : Ready ds done j := (h.mem_queue j).1 (hq ▸ List.mem_cons_of_mem _ hj)
      have hturn : InTurn ds (i :: queue) := hq ▸ h.inTurn
      have hne : j ≠ i := by
        rintro rfl
        exact runsBefore_irrefl j ((List.pairwise_cons.1 hturn).1 j hj)
      refine ⟨hready.lt_length, ?_, fun k hk => List.mem_append_left _ (hready.fed k hk)⟩
      simpa [hne] using hready.not_done
    · have hf : Feeds ds i j := mem_successors.1 hm
      -- a place that has run cannot have had `i` before it, since `i` has not run
      have hd : j ∉ done := fun hd => hi.not_done (h.closed j hd i hf)
      refine ⟨hf.right_lt, by simpa [hf.ne.symm] using hd, ?_⟩
      rw [hcount j hf.right_lt hd hm] at hc
      exact length_outstanding_eq_zero_iff.1 hc

/-- One run keeps the invariant. -/
theorem Tracks.next {ds : List Dependent} {done : List Nat} {s s' : Progress} {i : Nat}
    (h : s.Tracks ds done) (hs : s.next? ds = some (i, s')) :
    LeastReady ds done i ∧ s'.Tracks ds (done ++ [i]) := by
  obtain ⟨queue, hq, rfl⟩ := next?_eq_some hs
  have hi : LeastReady ds done i := h.leastReady hq
  have hnd : (successors ds i).Nodup := (nodup_allPlaces ds).filter _
  have hlt : ∀ j ∈ successors ds i, j < (⟨s.waiting, queue⟩ : Progress).waiting.length :=
    fun j hj => h.length_waiting ▸ (mem_successors.1 hj).right_lt
  have hturn := List.pairwise_cons.1 (hq ▸ h.inTurn : InTurn ds (i :: queue))
  refine ⟨hi, ?_, ?_, ?_, ?_, ?_⟩
  · rw [length_waiting_foldl_release]
    exact h.length_waiting
  · intro j hj k hk
    rcases List.mem_append.1 hj with hj | hj
    · exact List.mem_append_left _ (h.closed j hj k hk)
    · rw [List.mem_singleton.1 hj] at hk
      exact List.mem_append_left _ (hi.ready.fed k hk)
  · intro j hj hd
    have hd' : j ∉ done := fun hm => hd (List.mem_append_left _ hm)
    rw [count_foldl_release hnd hlt, length_outstanding_append hi.ready.not_done,
      ← h.count_eq j hj hd']
    rfl
  · intro j
    rw [mem_queue_foldl_release hnd hlt]
    exact (h.ready_append_iff hq j).symm
  · refine inTurn_foldl_release hnd hturn.2 fun j hj hm => ?_
    -- what is in the queue has all its predecessors behind it, but `i` has only just run
    have hready : Ready ds done j := (h.mem_queue j).1 (hq ▸ List.mem_cons_of_mem _ hm)
    exact hi.ready.not_done (hready.fed i (mem_successors.1 hj))

end Progress

/-! ### Whole runs -/

/-- A list of places each of which is the least ready one, once those in `done` and those before it
in the list have run. -/
inductive LeastOrder (ds : List Dependent) : List Nat → List Nat → Prop
  | nil (done : List Nat) : LeastOrder ds done []
  | cons {done order : List Nat} {i : Nat} (first : LeastReady ds done i)
      (rest : LeastOrder ds (done ++ [i]) order) : LeastOrder ds done (i :: order)

namespace LeastOrder

theorem leastReady {ds : List Dependent} {done before after : List Nat} {i : Nat}
    (h : LeastOrder ds done (before ++ i :: after)) : LeastReady ds (done ++ before) i := by
  induction before generalizing done with
  | nil =>
      cases h with
      | cons first rest => simpa using first
  | cons k before ih =>
      cases h with
      | cons first rest => simpa using ih rest

theorem nodup {ds : List Dependent} {done order : List Nat} (h : LeastOrder ds done order)
    (hd : done.Nodup) : (done ++ order).Nodup := by
  induction h with
  | nil done => simpa using hd
  | cons first rest ih => simpa using ih (first.nodup_append hd)

theorem lt_length {ds : List Dependent} {done order : List Nat} (h : LeastOrder ds done order) :
    ∀ i ∈ order, i < ds.length := by
  intro i hi
  obtain ⟨before, after, rfl⟩ := List.append_of_mem hi
  exact h.leastReady.ready.lt_length

/-- Along an edge between places of the list, the place in the list grows. -/
theorem idxOf_lt {ds : List Dependent} {order : List Nat} (h : LeastOrder ds [] order) {i j : Nat}
    (hf : Feeds ds i j) (hj : j ∈ order) : order.idxOf i < order.idxOf j := by
  obtain ⟨before, after, rfl⟩ := List.append_of_mem hj
  have hready : Ready ds before j := h.leastReady.ready
  have hi : i ∈ before := hready.fed i hf
  rw [List.idxOf_append_of_mem hi, List.idxOf_append_of_notMem hready.not_done]
  have := List.idxOf_lt_length_of_mem hi
  omega

/-- A list that holds every place leaves no room for a circle. -/
theorem not_cyclic {ds : List Dependent} {order : List Nat} (h : LeastOrder ds [] order)
    (hall : ∀ i < ds.length, i ∈ order) : ¬ Cyclic ds := by
  have hlt : ∀ {i j : Nat}, Relation.TransGen (Feeds ds) i j → order.idxOf i < order.idxOf j := by
    intro i j hij
    induction hij with
    | single hf => exact h.idxOf_lt hf (hall _ hf.right_lt)
    | tail _ hf ih => exact ih.trans (h.idxOf_lt hf (hall _ hf.right_lt))
  rintro ⟨i, hi⟩
  exact Nat.lt_irrefl _ (hlt hi)

end LeastOrder

theorem length_le_of_nodup {ds : List Dependent} {places : List Nat} (hnd : places.Nodup)
    (hlt : ∀ i ∈ places, i < ds.length) : places.length ≤ ds.length := by
  have hsub : places ⊆ allPlaces ds := fun i hi => mem_allPlaces.2 (hlt i hi)
  simpa [allPlaces] using (hnd.subperm hsub).length_le

/-- The loop takes the least ready place each time, until none is ready. The fuel is enough as
long as it counts the places that have not run. -/
theorem Progress.Tracks.leastOrder {ds : List Dependent} {n : Nat} :
    ∀ {done : List Nat} {s : Progress}, s.Tracks ds done → done.Nodup →
      (∀ i ∈ done, i < ds.length) → ds.length ≤ n + done.length →
      LeastOrder ds done (runFrom ds n s) ∧ ∀ j, ¬ Ready ds (done ++ runFrom ds n s) j := by
  induction n with
  | zero =>
      -- all places have run, so one more that is ready would be one too many
      intro done s _ hnd hlt hn
      refine ⟨.nil _, fun j hj => ?_⟩
      rw [runFrom, List.append_nil] at hj
      have hle : (j :: done).length ≤ ds.length :=
        length_le_of_nodup (List.nodup_cons.2 ⟨hj.not_done, hnd⟩)
          (List.forall_mem_cons.2 ⟨hj.lt_length, hlt⟩)
      rw [List.length_cons] at hle
      omega
  | succ n ih =>
      intro done s hs hnd hlt hn
      rw [runFrom]
      cases hnext : s.next? ds with
      | none =>
          refine ⟨.nil _, fun j hj => ?_⟩
          rw [List.append_nil] at hj
          have hm := (hs.mem_queue j).2 hj
          rw [next?_eq_none hnext] at hm
          cases hm
      | some p =>
          obtain ⟨i, s'⟩ := p
          obtain ⟨hi, hs'⟩ := hs.next hnext
          have hlt' : ∀ k ∈ done ++ [i], k < ds.length := by
            intro k hk
            rcases List.mem_append.1 hk with hk | hk
            · exact hlt k hk
            · rw [List.mem_singleton.1 hk]
              exact hi.ready.lt_length
          obtain ⟨horder, hnone⟩ := ih hs' (hi.nodup_append hnd) hlt' (by simp; omega)
          refine ⟨.cons hi horder, ?_⟩
          simpa using hnone

/-- What runs, from the start on: least places first, until none is ready. -/
theorem leastOrder_runFrom_start (ds : List Dependent) :
    LeastOrder ds [] (runFrom ds ds.length (.start ds)) ∧
      ∀ j, ¬ Ready ds (runFrom ds ds.length (.start ds)) j :=
  (Progress.tracks_start ds).leastOrder List.nodup_nil (by simp) (by simp)

/-! ### Circles -/

/-- Distinct places, each of which feeds the next one, and the last one the first. -/
structure Circle (ds : List Dependent) (places : List Nat) : Prop where
  ne_nil : places ≠ []
  nodup : places.Nodup
  chain : places.IsChain (Feeds ds)
  closed : Feeds ds (places.getLast ne_nil) (places.head ne_nil)

theorem Circle.cyclic {ds : List Dependent} {places : List Nat} (h : Circle ds places) :
    Cyclic ds :=
  ⟨places.head h.ne_nil,
    Relation.TransGen.tail' (List.relationReflTransGen_of_exists_isChain places h.chain h.ne_nil)
      h.closed⟩

/-- Every place waits for another one. -/
def Stuck (ds : List Dependent) (left : List Nat) : Prop :=
  ∀ j ∈ left, ∃ i ∈ left, Feeds ds i j

/-- When a place comes again on a walk back, the part of the path up to it is a circle. -/
theorem circle_of_mem {ds : List Dependent} {path : List Nat} {i : Nat} (hnd : path.Nodup)
    (hchain : (i :: path).IsChain (Feeds ds)) (hmem : i ∈ path) :
    Circle ds (path.takeWhile (· != i) ++ [i]) := by
  obtain ⟨before, after, rfl, hnot⟩ := List.eq_append_cons_of_mem hmem
  have htake : (before ++ i :: after).takeWhile (· != i) = before := by
    rw [List.takeWhile_append_of_pos (fun k hk => by
      rw [bne_iff_ne]
      rintro rfl
      exact hnot hk)]
    simp
  rw [htake]
  refine ⟨by simp, ?_, ?_, ?_⟩
  · have hpre : before ++ [i] <+: before ++ i :: after := ⟨after, by simp⟩
    exact hnd.sublist hpre.sublist
  · have hpath := List.isChain_of_isChain_cons hchain
    rw [← List.singleton_append, ← List.append_assoc] at hpath
    exact hpath.left_of_append
  · -- the circle ends with `i`, which feeds the first place of the path
    rw [List.getLast_append_singleton]
    cases before with
    | nil => simpa using (List.isChain_cons_cons.1 hchain).1
    | cons k before => simpa using (List.isChain_cons_cons.1 hchain).1

/-- Walking back from `i`, which feeds the last place of the path, closes a circle: the places are
distinct as long as none comes again, so one does before the fuel runs out. -/
theorem walkBack_circle {ds : List Dependent} {left : List Nat} (hstuck : Stuck ds left) {n : Nat} :
    ∀ {path : List Nat} {i : Nat}, i ∈ left → path ⊆ left → path.Nodup →
      (i :: path).IsChain (Feeds ds) → left.length + 1 ≤ n + path.length →
      ∃ cycle, walkBack ds left n path i = some cycle ∧ Circle ds cycle := by
  induction n with
  | zero =>
      intro path i _ hsub hnd _ hn
      have hle := (hnd.subperm hsub).length_le
      omega
  | succ n ih =>
      intro path i hi hsub hnd hchain hn
      rw [walkBack]
      split
      · next hmem => exact ⟨_, rfl, circle_of_mem hnd hchain hmem⟩
      · next hmem =>
        obtain ⟨p, hp, hfeeds⟩ := hstuck i hi
        have hne : predecessors ds left i ≠ [] :=
          List.ne_nil_of_mem (mem_predecessors.2 ⟨hp, hfeeds⟩)
        obtain ⟨q, rest, hq⟩ := List.exists_cons_of_ne_nil hne
        have hqmem : q ∈ left ∧ Feeds ds q i := mem_predecessors.1 (hq ▸ List.mem_cons_self ..)
        rw [hq]
        refine ih hqmem.1 (List.cons_subset.2 ⟨hi, hsub⟩) (List.nodup_cons.2 ⟨hmem, hnd⟩)
          (List.isChain_cons_cons.2 ⟨hqmem.2, hchain⟩) ?_
        rw [List.length_cons]
        omega

/-- Among places that are stuck, a circle is found. -/
theorem findCycle?_circle {ds : List Dependent} {left : List Nat} (hstuck : Stuck ds left)
    (hne : left ≠ []) : ∃ cycle, findCycle? ds left = some cycle ∧ Circle ds cycle := by
  obtain ⟨i, rest, rfl⟩ := List.exists_cons_of_ne_nil hne
  exact walkBack_circle hstuck (List.mem_cons_self ..) (List.nil_subset _) List.nodup_nil
    (List.isChain_singleton i) (by simp)

/-! ### The order -/

/-- When no place is ready, those that have not run are stuck. -/
theorem stuck_of_not_ready {ds : List Dependent} {order : List Nat}
    (h : ∀ j, ¬ Ready ds order j) : Stuck ds ((allPlaces ds).filter fun i => i ∉ order) := by
  intro j hj
  obtain ⟨hlt, hnot⟩ : j < ds.length ∧ j ∉ order := by simpa using hj
  by_contra hnone
  refine h j ⟨hlt, hnot, fun i hi => ?_⟩
  by_contra hi'
  exact hnone ⟨i, by simpa using ⟨hi.left_lt, hi'⟩, hi⟩

/-- The two ways in which ordering ends: with all places in least order, or with a circle. -/
theorem runningOrder_cases (ds : List Dependent) :
    (∃ order, runningOrder ds = .ok order ∧ LeastOrder ds [] order ∧ order.Perm (allPlaces ds)) ∨
      ∃ cycle, runningOrder ds = .error (.cycle cycle) ∧ Circle ds cycle := by
  obtain ⟨horder, hnone⟩ := leastOrder_runFrom_start ds
  have hstuck := stuck_of_not_ready hnone
  unfold runningOrder
  -- only what was just said about the list of places that run is needed from here on
  generalize runFrom ds ds.length (.start ds) = order at *
  cases hleft : (allPlaces ds).filter fun i => i ∉ order with
  | nil =>
      refine Or.inl ⟨order, by simp only [hleft], horder, ?_⟩
      refine (List.perm_ext_iff_of_nodup (by simpa using horder.nodup List.nodup_nil)
        (nodup_allPlaces ds)).2 fun i => ⟨fun hi => mem_allPlaces.2 (horder.lt_length i hi), ?_⟩
      intro hi
      by_contra hnot
      have : i ∈ (allPlaces ds).filter fun i => i ∉ order := by simpa using ⟨by simpa using hi, hnot⟩
      rw [hleft] at this
      cases this
  | cons i rest =>
      rw [hleft] at hstuck
      obtain ⟨cycle, hcycle, hcirc⟩ := findCycle?_circle hstuck (List.cons_ne_nil _ _)
      exact Or.inr ⟨cycle, by simp only [hleft, hcycle], hcirc⟩

theorem filterMap_getElem?_range {α : Type} (xs : List α) :
    ((List.range xs.length).filterMap fun i => xs[i]?) = xs := by
  induction xs with
  | nil => rfl
  | cons x xs ih =>
      rw [List.length_cons, List.range_succ_eq_map, List.filterMap_cons, List.getElem?_cons_zero,
        List.filterMap_map]
      exact congrArg (x :: ·) ih

/-- **There is an order exactly when there is no circle**, and each declaration in it is the least,
by source index and then by place, of those that have not run and whose predecessors all have. -/
theorem runningOrder_least_ready_or_cyclic (ds : List Dependent) :
    ((∃ cycle, runningOrder ds = .error (.cycle cycle)) ↔ Cyclic ds) ∧
      (¬ Cyclic ds → ∃ order, runningOrder ds = .ok order ∧
        order.Perm (List.range ds.length) ∧ (order.filterMap fun i => ds[i]?).Perm ds ∧
        ∀ before i after, order = before ++ i :: after → LeastReady ds before i) := by
  -- each of the two endings settles both halves, since the first one rules out a circle
  rcases runningOrder_cases ds with ⟨order, hok, horder, hperm⟩ | ⟨cycle, herr, hcirc⟩
  · have hacyclic : ¬ Cyclic ds :=
      horder.not_cyclic fun i hi => hperm.mem_iff.2 (mem_allPlaces.2 hi)
    refine ⟨⟨?_, fun h => absurd h hacyclic⟩, fun _ => ⟨order, hok, hperm, ?_, ?_⟩⟩
    · rintro ⟨cycle, herr⟩
      rw [hok] at herr
      cases herr
    · have hmap := hperm.filterMap fun i => ds[i]?
      rwa [allPlaces, filterMap_getElem?_range] at hmap
    · rintro before i after rfl
      exact horder.leastReady
  · exact ⟨⟨fun _ => hcirc.cyclic, fun _ => ⟨cycle, herr⟩⟩, fun h => absurd hcirc.cyclic h⟩

end ReactiveTemplate
