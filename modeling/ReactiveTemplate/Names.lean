/-
Sets of names.

A set of names is a list without repetitions in the order of first insertion. What is printed of
a set is its sorted list, in the order of code points.

* `Names.insert`, `Names.union`, `Names.ofList` — building a set;
* `Names.sort` — the sorted list of a set.
-/

import ReactiveTemplate.SortBy

set_option relaxedAutoImplicit false
set_option autoImplicit false

namespace ReactiveTemplate

/-- A list of names, without repetitions when built by `Names.insert`. -/
abbrev Names := List String

namespace Names

/-- A set with one more name, added at the end unless it is there. -/
def insert (names : Names) (name : String) : Names :=
  if name ∈ names then names else names ++ [name]

/-- A set with the names of a list added in turn. -/
def union (names : Names) (more : List String) : Names :=
  more.foldl insert names

/-- The set of the names of a list. -/
def ofList (names : List String) : Names :=
  union [] names

@[simp] theorem mem_insert {names : Names} {name x : String} :
    x ∈ names.insert name ↔ x ∈ names ∨ x = name := by
  unfold insert
  split
  · constructor
    · exact Or.inl
    · rintro (h | rfl)
      · exact h
      · assumption
  · simp

@[simp] theorem mem_union {names : Names} {more : List String} {x : String} :
    x ∈ names.union more ↔ x ∈ names ∨ x ∈ more := by
  induction more generalizing names with
  | nil => simp [union]
  | cons m more ih =>
    have h : names.union (m :: more) = (names.insert m).union more := rfl
    rw [h, ih, mem_insert, List.mem_cons, or_assoc]

@[simp] theorem mem_ofList {names : List String} {x : String} : x ∈ ofList names ↔ x ∈ names := by
  simp [ofList]

theorem nodup_insert {names : Names} {name : String} (h : names.Nodup) :
    (names.insert name).Nodup := by
  unfold insert
  split
  · exact h
  · rename_i hn
    simp only [List.nodup_append, List.nodup_cons, List.not_mem_nil, not_false_eq_true,
      List.nodup_nil, and_self, List.mem_singleton, true_and, h]
    rintro a ha b rfl rfl
    exact hn ha

theorem nodup_union {names : Names} {more : List String} (h : names.Nodup) :
    (names.union more).Nodup := by
  induction more generalizing names with
  | nil => exact h
  | cons m more ih => exact ih (nodup_insert h)

/-- A set is free of repetitions. -/
theorem nodup_ofList (names : List String) : (ofList names).Nodup :=
  nodup_union List.nodup_nil

/-- The names in the order of code points. -/
def sort (names : List String) : List String :=
  sortBy (fun n => n) names

end Names

end ReactiveTemplate
