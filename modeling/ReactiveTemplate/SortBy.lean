/-
Sorting a list by a key.

* `insertBy` — puts an element in its place in a sorted list;
* `sortBy` — the list sorted by a key, elements of equal keys in their old order.
-/

set_option relaxedAutoImplicit false
set_option autoImplicit false

namespace ReactiveTemplate

variable {α κ : Type} [LT κ] [∀ a b : κ, Decidable (a < b)]

/-- Puts an element before the first one whose key is not below its own. -/
def insertBy (key : α → κ) (x : α) : List α → List α
  | [] => [x]
  | y :: ys => if key y < key x then y :: insertBy key x ys else x :: y :: ys

/-- A list sorted by a key. Elements of equal keys keep their order. -/
def sortBy (key : α → κ) (xs : List α) : List α :=
  xs.foldr (insertBy key) []

theorem perm_insertBy (key : α → κ) (x : α) (ys : List α) :
    (insertBy key x ys).Perm (x :: ys) := by
  induction ys with
  | nil => exact List.Perm.refl _
  | cons y ys ih =>
    unfold insertBy
    split
    · exact (List.Perm.cons y ih).trans (List.Perm.swap x y ys)
    · exact List.Perm.refl _

/-- Sorting loses nothing and adds nothing. -/
theorem perm_sortBy (key : α → κ) (xs : List α) : (sortBy key xs).Perm xs := by
  induction xs with
  | nil => exact List.Perm.refl _
  | cons x xs ih => exact (perm_insertBy key x _).trans (List.Perm.cons x ih)

@[simp] theorem mem_sortBy {key : α → κ} {xs : List α} {x : α} : x ∈ sortBy key xs ↔ x ∈ xs :=
  (perm_sortBy key xs).mem_iff

end ReactiveTemplate
