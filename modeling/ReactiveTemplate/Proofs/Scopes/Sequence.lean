/-
**The pass over a tree is a sequence of visits.**

The pass that opens scopes recurses over a tree, but what it finds is found step by step: the visits that
it makes form a sequence in source order, in which each visit goes on from what the one before has found.
So a property of the state is kept by the pass when it is kept at every node, and what the pass records is
what the nodes contribute, one after the other.

Scopes are numbered in the order in which they are opened, and a scope is opened behind the scope around
it.  That gives the chain of a scope, and the scope that variables are hoisted to, by recursion on the
scope around.

Main definitions:

* `ReactiveTemplate.Script.Node.paths` — the paths to the nodes of a tree, in source order;
* `ReactiveTemplate.Visit.visits`, `ReactiveTemplate.Run` — the visits of a tree, and the sequence they form;
* `ReactiveTemplate.Forest.Ordered` — parents are opened first;
* `ReactiveTemplate.Resolver.Numbered` — openings are noted in the order of the scopes' numbers.

Main results:

* `ReactiveTemplate.Visit.run_visits` — **the pass is the sequence of its visits**;
* `ReactiveTemplate.Run.invariant`, `ReactiveTemplate.Run.foldl_eq`, `ReactiveTemplate.Run.append_eq` — what
  every visit keeps, and what visits contribute;
* `ReactiveTemplate.Visit.exists_skipped` — why a node is not visited;
* `ReactiveTemplate.Forest.Ordered.chain_of_parent?`, `ReactiveTemplate.Forest.Ordered.closestFunction_eq` —
  chains and hoisting by recursion.
-/

import ReactiveTemplate.Proofs.Scopes.Agreement
import ReactiveTemplate.Proofs.Scopes.Confinement

set_option relaxedAutoImplicit false
set_option autoImplicit false

namespace ReactiveTemplate

open Script

/-! ### Paths in source order -/

namespace Script.Node

mutual

/-- The paths to the nodes of a tree, in source order. -/
def paths : Node → List (List Nat)
  | .mk _ _ _ _ _ cs => [] :: pathsFrom 0 cs

/-- The paths to the nodes of neighbours, the first of which is the child at place `i`. -/
def pathsFrom (i : Nat) : List Node → List (List Nat)
  | [] => []
  | c :: cs => c.paths.map (i :: ·) ++ pathsFrom (i + 1) cs

end

theorem paths_eq (n : Node) : n.paths = [] :: pathsFrom 0 n.children := by
  cases n
  rw [paths, children]

theorem mem_pathsFrom {cs : List Node} {i : Nat} {p : List Nat} :
    p ∈ pathsFrom i cs ↔ ∃ j c q, cs[j]? = some c ∧ q ∈ c.paths ∧ p = (i + j) :: q := by
  induction cs generalizing i with
  | nil => simp [pathsFrom]
  | cons d cs ih =>
      rw [pathsFrom, List.mem_append, List.mem_map, ih]
      constructor
      · rintro (⟨q, hq, rfl⟩ | ⟨j, c, q, hc, hq, rfl⟩)
        · exact ⟨0, d, q, rfl, hq, rfl⟩
        · exact ⟨j + 1, c, q, hc, hq, by rw [Nat.add_right_comm, Nat.add_assoc]⟩
      · rintro ⟨j, c, q, hc, hq, rfl⟩
        cases j with
        | zero =>
            obtain rfl : d = c := by simpa using hc
            exact .inl ⟨q, hq, rfl⟩
        | succ j => exact .inr ⟨j, c, q, hc, hq, by rw [Nat.add_right_comm, Nat.add_assoc]⟩

/-- The paths of a tree are those at which a node stands. -/
theorem mem_paths {n : Node} {p : List Nat} : p ∈ n.paths ↔ ∃ m, n.at? p = some m := by
  induction p generalizing n with
  | nil => simp [paths_eq, at?]
  | cons i p ih =>
      rw [paths_eq, List.mem_cons, mem_pathsFrom]
      constructor
      · rintro (h | ⟨j, c, q, hc, hq, h⟩)
        · cases h
        · obtain ⟨rfl, rfl⟩ : i = j ∧ p = q := by simpa using h
          obtain ⟨m, hm⟩ := ih.1 hq
          exact ⟨m, Option.bind_eq_some_iff.2 ⟨c, hc, hm⟩⟩
      · rintro ⟨m, hm⟩
        obtain ⟨c, hc, hm⟩ := Option.bind_eq_some_iff.1 hm
        exact .inr ⟨i, c, p, hc, ih.2 ⟨m, hm⟩, by rw [Nat.zero_add]⟩

mutual

/-- The nodes at the paths of a tree are its nodes in source order. -/
theorem filterMap_at?_paths : ∀ n : Node, n.paths.filterMap n.at? = n.walk
  | .mk k r a b i cs => by
      rw [paths, walk, List.filterMap_cons]
      exact congrArg _ (filterMap_at?_pathsFrom cs [] (.mk k r a b i cs) rfl)

theorem filterMap_at?_pathsFrom : ∀ (cs done : List Node) (n : Node), n.children = done ++ cs →
    (pathsFrom done.length cs).filterMap n.at? = walkAll cs
  | [], _, _, _ => rfl
  | c :: cs, done, n, h => by
      have hrest := filterMap_at?_pathsFrom cs (done ++ [c]) n (by simpa using h)
      have hat (q : List Nat) : n.at? (done.length :: q) = c.at? q := by
        rw [at?, h]
        simp
      rw [List.length_append, List.length_singleton] at hrest
      rw [pathsFrom, walkAll, List.filterMap_append, List.filterMap_map, hrest, ← filterMap_at?_paths c]
      exact congrArg (· ++ _) (List.filterMap_congr fun q _ => hat q)

end

end Script.Node

/-! ### The sequence of visits -/

/-- A part of the pass, from one state to another, as the sequence of its visits. -/
inductive Run (source : Source) (root : ScopeId) : Resolver → List Visit → Resolver → Prop
  | nil (s : Resolver) : Run source root s [] s
  | cons (w : Visit) {ws : List Visit} {s : Resolver} (h : Run source root (w.entered source root) ws s) :
      Run source root w.before (w :: ws) s

namespace Run

variable {source : Source} {root : ScopeId} {s s' s'' : Resolver} {ws ws' : List Visit}

theorem append (h : Run source root s ws s') (h' : Run source root s' ws' s'') :
    Run source root s (ws ++ ws') s'' := by
  induction h with
  | nil s => exact h'
  | cons w _ ih => exact .cons w (ih h')

theorem tail {w : Visit} (h : Run source root s (w :: ws) s') : Run source root (w.entered source root) ws s' := by
  cases h with
  | cons _ h => exact h

/-- What every visit keeps holds at the end, and before every visit. -/
theorem invariant {I : Resolver → Prop} (h : Run source root s ws s') (hs : I s)
    (hstep : ∀ w ∈ ws, I w.before → I (w.entered source root)) : I s' ∧ ∀ w ∈ ws, I w.before := by
  induction h with
  | nil s => exact ⟨hs, by simp⟩
  | cons w _ ih =>
      obtain ⟨hlast, hall⟩ := ih (hstep w (List.mem_cons_self ..) hs)
        fun u hu => hstep u (List.mem_cons_of_mem w hu)
      exact ⟨hlast, List.forall_mem_cons.2 ⟨hs, hall⟩⟩

/-- A view of the state that each visit changes by what it contributes. -/
theorem foldl_eq {α β : Type} {step : β → α → β} (h : Run source root s ws s') (view : Resolver → β)
    (contribution : Visit → List α)
    (hstep : ∀ w ∈ ws, view (w.entered source root) = (contribution w).foldl step (view w.before)) :
    view s' = (ws.flatMap contribution).foldl step (view s) := by
  induction h with
  | nil s => rfl
  | cons w _ ih =>
      rw [List.flatMap_cons, List.foldl_append, ← hstep w (List.mem_cons_self ..)]
      exact ih fun u hu => hstep u (List.mem_cons_of_mem w hu)

/-- A list in the state to which each visit adds what it contributes. -/
theorem append_eq {α : Type} (h : Run source root s ws s') (view : Resolver → List α)
    (contribution : Visit → List α)
    (hstep : ∀ w ∈ ws, view (w.entered source root) = view w.before ++ contribution w) :
    view s' = view s ++ ws.flatMap contribution := by
  induction h with
  | nil s => rw [List.flatMap_nil, List.append_nil]
  | cons w _ ih =>
      rw [ih fun u hu => hstep u (List.mem_cons_of_mem w hu), hstep w (List.mem_cons_self ..),
        List.flatMap_cons, List.append_assoc]

end Run

namespace Visit

variable (source : Source) (root : ScopeId)

/-- The visits of a tree in source order. -/
def visits (v : Visit) : List Visit :=
  v.node.paths.filterMap (v.at? source root)

variable {source : Source} {root : ScopeId} {v w : Visit} {p : List Nat} {i : Nat}

theorem mem_visits : w ∈ v.visits source root ↔ ∃ p, v.at? source root p = some w := by
  rw [visits, List.mem_filterMap]
  constructor
  · rintro ⟨p, -, hp⟩
    exact ⟨p, hp⟩
  · rintro ⟨p, hp⟩
    exact ⟨p, Node.mem_paths.2 ⟨w.node, node_at? hp⟩, hp⟩

/-- What the visits of a tree contribute, as what its paths contribute. -/
theorem flatMap_visits {α : Type} {g : Visit → List α} {f : List Nat → List α}
    (hvisited : ∀ p w, v.at? source root p = some w → g w = f p)
    (hunvisited : ∀ p ∈ v.node.paths, v.at? source root p = none → f p = []) :
    (v.visits source root).flatMap g = v.node.paths.flatMap f := by
  rw [visits]
  generalize v.node.paths = ps at hunvisited
  induction ps with
  | nil => rfl
  | cons p ps ih =>
      obtain ⟨hp, hps⟩ := List.forall_mem_cons.1 hunvisited
      rw [List.filterMap_cons, List.flatMap_cons]
      cases hw : v.at? source root p with
      | none => rw [hp hw, List.nil_append, ih hps]
      | some w => rw [List.flatMap_cons, hvisited p w hw, ih hps]

mutual

theorem run_visitNode : ∀ (n : Node) (shared : Bool) (around : ScopeId) (before : Resolver),
    Run source root before ((⟨n, shared, around, before⟩ : Visit).visits source root)
      ((⟨n, shared, around, before⟩ : Visit).after source root)
  | .mk k r a b i cs, shared, around, before => by
      have hrest := run_visitChildren cs [] ⟨.mk k r a b i cs, shared, around, before⟩ rfl
      rw [visitChildren] at hrest
      rw [after_eq, visits, Node.paths, List.filterMap_cons]
      exact .cons _ hrest

theorem run_visitChildren : ∀ (cs done : List Node) (v : Visit), v.node.children = done ++ cs →
    Run source root
      (visitChildren source root v.node.kind (v.inner source root) done (v.entered source root))
      ((Node.pathsFrom done.length cs).filterMap (v.at? source root))
      (visitChildren source root v.node.kind (v.inner source root) cs
        (visitChildren source root v.node.kind (v.inner source root) done (v.entered source root)))
  | [], done, v, _ => by
      rw [visitChildren]
      exact .nil _
  | c :: cs, done, v, h => by
      have hrest := run_visitChildren cs (done ++ [c]) v (by simpa using h)
      rw [List.length_append, List.length_singleton, visitChildren_append, visitChildren_cons,
        visitChildren] at hrest
      rw [visitChildren_cons, Node.pathsFrom, List.filterMap_append, List.filterMap_map]
      refine .append ?_ hrest
      have hat (q : List Nat) : (v.at? source root ∘ (done.length :: ·)) q =
          (v.child? source root done.length).bind (·.at? source root q) := rfl
      rw [List.filterMap_congr fun q _ => hat q, child?, h]
      simp only [List.getElem?_append_right (Nat.le_refl _), Nat.sub_self, List.getElem?_cons_zero,
        Option.bind_some, List.take_left']
      split
      · simpa using Run.nil _
      · simp only [Option.bind_some]
        exact run_visitNode c _ _ _

end

/-- **The pass is the sequence of its visits.** -/
theorem run_visits (v : Visit) : Run source root v.before (v.visits source root) (v.after source root) :=
  run_visitNode v.node v.shared v.around v.before

/-- The visits below a visit come after it. -/
theorem run_below (v : Visit) : Run source root (v.entered source root)
    ((Node.pathsFrom 0 v.node.children).filterMap (v.at? source root)) (v.after source root) := by
  have hrun : Run source root v.before (v.visits source root) (v.after source root) := v.run_visits
  rw [visits, Node.paths_eq, List.filterMap_cons] at hrun
  exact hrun.tail

/-! ### Visits along a path -/

/-- What goes from a visit to the visits of its children holds of all visits of a tree. -/
theorem at?_induction {P : Visit → Prop} (hv : P v) (hw : v.at? source root p = some w)
    (hchild : ∀ u i u', P u → u.child? source root i = some u' → P u') : P w := by
  induction p generalizing v with
  | nil => exact Option.some.inj hw ▸ hv
  | cons i p ih =>
      obtain ⟨u, hu, hw⟩ := Option.bind_eq_some_iff.1 hw
      exact ih (hchild v i u hv hu) hw

/-- What a visit has found stays: scopes are only added behind. -/
theorem outline_entered_initial (hw : v.at? source root p = some w) :
    (w.entered source root).forest.outline <+: (v.after source root).forest.outline := by
  induction p generalizing v with
  | nil =>
      obtain rfl : v = w := Option.some.inj hw
      rw [after_eq]
      exact (grows_visitChildren source root _ _ _ _).outline
  | cons i p ih =>
      obtain ⟨u, hu, hw⟩ := Option.bind_eq_some_iff.1 hw
      obtain ⟨-, -, -, hafter⟩ := child?_cases hu
      rw [hafter]
      exact (ih hw).trans (grows_visitChildren source root _ _ _ _).outline

/-- A node that is not visited stands in a child that its parent's visit skips. -/
theorem exists_skipped {m : Node} (hm : v.node.at? p = some m) (hnone : v.at? source root p = none) :
    ∃ q i rest u c, p = q ++ i :: rest ∧ v.at? source root q = some u ∧ u.node.children[i]? = some c ∧
      treatment u.node.kind c = .skip ∧ c.at? rest = some m := by
  induction p generalizing v with
  | nil => cases hnone
  | cons i p ih =>
      obtain ⟨c, hc, hm⟩ := Option.bind_eq_some_iff.1 hm
      rw [at?, child?, hc, Option.bind_some] at hnone
      split at hnone
      · next hskip => exact ⟨[], i, p, v, c, rfl, rfl, hc, hskip, hm⟩
      · next hskip =>
          obtain ⟨q, j, rest, u, d, rfl, hu, hd, htreatment, hm⟩ := ih hm hnone
          refine ⟨i :: q, j, rest, u, d, rfl, ?_, hd, htreatment, hm⟩
          rw [at?, child?, hc, Option.bind_some, if_neg hskip]
          exact hu

end Visit

/-! ### Parents are opened first -/

namespace Forest

/-- The scope around a scope was opened before it. -/
def Ordered (f : Forest) : Prop :=
  ∀ (i : Nat) kind (q : Nat), f.outline[i]? = some (kind, some q) → q < i

namespace Ordered

variable {f f' : Forest} {i q : Nat}

theorem lt_of_parent? (h : f.Ordered) (hq : f.parent? i = some q) : q < i := by
  rw [parent?_eq] at hq
  obtain ⟨⟨kind, parent⟩, hi, rfl⟩ := Option.bind_eq_some_iff.1 hq
  exact h i kind q hi

/-- The bound on the length of a chain does not matter when it is large enough. -/
theorem chainUpTo_eq (h : f.Ordered) {n m : Nat} (hn : i ≤ n) (hm : i ≤ m) :
    f.chainUpTo n i = f.chainUpTo m i := by
  -- a chain is no longer than the number of its scope, as the parent's number is smaller
  have hzero (m : Nat) : f.chainUpTo m 0 = [0] := by
    cases hparent : f.parent? 0 with
    | some q => exact absurd (h.lt_of_parent? hparent) (Nat.not_lt_zero q)
    | none => cases m <;> simp [chainUpTo, hparent]
  induction n generalizing i m with
  | zero =>
      obtain rfl := Nat.le_zero.1 hn
      rw [hzero, hzero]
  | succ n ih =>
      cases m with
      | zero =>
          obtain rfl := Nat.le_zero.1 hm
          rw [hzero, hzero]
      | succ m =>
          rw [chainUpTo, chainUpTo]
          cases hparent : f.parent? i with
          | none => rfl
          | some q =>
              have hlt := h.lt_of_parent? hparent
              exact congrArg (i :: ·) (ih (by omega) (by omega))

/-- The chain of a scope goes on with the chain of the scope around it. -/
theorem chain_of_parent? (h : f.Ordered) (hq : f.parent? i = some q) : f.chain i = i :: f.chain q := by
  have hlt := h.lt_of_parent? hq
  obtain ⟨n, rfl⟩ := Nat.exists_eq_succ_of_ne_zero (Nat.ne_zero_of_lt hlt)
  rw [chain, chainUpTo, hq]
  exact congrArg (_ :: ·) (h.chainUpTo_eq (by omega) (Nat.le_refl q))

theorem chain_of_root (hq : f.parent? i = none) : f.chain i = [i] := by
  rw [chain]
  cases i with
  | zero => rfl
  | succ i => rw [chainUpTo, hq]

/-- Every chain has a scope that hoisted variables do not pass. -/
theorem find?_chain (h : f.Ordered) (i : Nat) :
    ((f.chain i).find? fun j => !f.passesHoisted j) = some (f.closestFunction i) := by
  suffices hsome : ∃ j, ((f.chain i).find? fun j => !f.passesHoisted j) = some j by
    obtain ⟨j, hj⟩ := hsome
    rw [closestFunction, hj]
    rfl
  induction i using Nat.strong_induction_on with
  | h i ih =>
      cases hparent : f.parent? i with
      | none =>
          have hpasses : f.passesHoisted i = false := by
            rw [parent?_eq] at hparent
            rw [passesHoisted_eq]
            cases hi : f.outline[i]? with
            | none => rfl
            | some s =>
                rw [hi, Option.bind_some] at hparent
                simp [hparent]
          exact ⟨i, by simp [chain_of_root hparent, hpasses]⟩
      | some q =>
          rw [h.chain_of_parent? hparent, List.find?_cons]
          cases hpasses : f.passesHoisted i with
          | false => exact ⟨i, rfl⟩
          | true => exact ih q (h.lt_of_parent? hparent)

/-- A variable declared in a block is hoisted to where one declared around the block is hoisted to. -/
theorem closestFunction_of_block (h : f.Ordered) (hi : f.outline[i]? = some (.block, some q)) :
    f.closestFunction i = f.closestFunction q := by
  have hparent : f.parent? i = some q := by rw [parent?_eq, hi]; rfl
  have hpasses : f.passesHoisted i = true := by rw [passesHoisted_eq, hi]; rfl
  refine Option.some.inj ?_
  rw [← h.find?_chain, ← h.find?_chain, h.chain_of_parent? hparent, List.find?_cons, hpasses]
  rfl

theorem closestFunction_of_stops (hi : f.passesHoisted i = false) : f.closestFunction i = i := by
  rw [closestFunction]
  cases hparent : f.parent? i with
  | none => simp [chain_of_root hparent, hi]
  | some q =>
      rw [chain]
      cases i with
      | zero => simp [chainUpTo, hi]
      | succ i => simp [chainUpTo, hparent, hi]

/-- The scope that a variable is hoisted to, by recursion on the scope around. -/
theorem closestFunction_eq (h : f.Ordered) (i : Nat) : f.closestFunction i =
    match f.outline[i]? with
    | some (.block, some q) => f.closestFunction q
    | _ => i := by
  split
  · next q hi => exact h.closestFunction_of_block hi
  · next hnot =>
      refine closestFunction_of_stops ?_
      rw [passesHoisted_eq]
      split
      · next kind parent hi =>
          rw [Bool.and_eq_false_iff]
          by_cases hkind : kind = .block
          · cases parent with
            | none => exact .inr rfl
            | some q => exact absurd (hkind ▸ hi) (hnot q)
          · exact .inl (beq_eq_false_iff_ne.2 hkind)
      · rfl

theorem closestFunction_le (h : f.Ordered) (i : Nat) : f.closestFunction i ≤ i := by
  induction i using Nat.strong_induction_on with
  | h i ih =>
      rw [h.closestFunction_eq]
      split
      · next q hi =>
          have hlt := h i _ q hi
          exact (ih q hlt).trans hlt.le
      · exact Nat.le_refl i

/-- Where a variable is hoisted to is settled when its scope has been opened. -/
theorem closestFunction_of_initial (h : f'.Ordered) (hf : f.Ordered) (hpre : f.outline <+: f'.outline)
    (hi : i < f.scopes.length) : f.closestFunction i = f'.closestFunction i := by
  induction i using Nat.strong_induction_on with
  | h i ih =>
      obtain ⟨more, hmore⟩ := hpre
      have hsame : f'.outline[i]? = f.outline[i]? := by
        rw [← hmore, List.getElem?_append_left]
        rwa [length_outline]
      rw [h.closestFunction_eq, hf.closestFunction_eq, hsame]
      split
      · next q hq =>
          have hlt := hf i _ q hq
          exact ih q hlt (hlt.trans hi)
      · rfl

end Ordered

end Forest

/-! ### Numbers of scopes -/

/-- Scopes are noted in the order of their numbers, and parents are opened first. -/
structure Resolver.Numbered (s : Resolver) : Prop where
  numbers : s.openings.map Opening.scope = List.range s.forest.scopes.length
  ordered : s.forest.Ordered

variable {source : Source} {root : ScopeId} {v w : Visit} {p : List Nat}

/-- A visit in a scope that has been opened. -/
def Visit.Inside (v : Visit) : Prop :=
  v.around < v.before.forest.outline.length

theorem Visit.Inside.inner_lt (h : v.Inside) :
    v.inner source root < (v.entered source root).forest.outline.length := by
  have hentered : Entered v.node v.around v.before (v.entered source root) (v.inner source root) :=
    v.entered_inner
  have haround : v.around < v.before.forest.outline.length := h
  generalize v.inner source root = inner at hentered
  generalize v.entered source root = s' at hentered
  cases hentered with
  | stays _ houtline _ => rwa [houtline]
  | opens _ _ houtline _ =>
      rw [houtline, List.length_append, length_outline]
      exact Nat.lt_succ_self _

theorem Visit.Inside.at? (h : v.Inside) (hw : v.at? source root p = some w) : w.Inside := by
  refine at?_induction h hw fun u i u' hu hu' => ?_
  obtain ⟨-, haround, hbefore, -⟩ := child?_cases hu'
  rw [Inside, haround, hbefore]
  exact Nat.lt_of_lt_of_le hu.inner_lt (grows_visitChildren source root _ _ _ _).outline.length_le

/-- What happens at a node keeps scopes in the order of their numbers. -/
theorem Resolver.Numbered.entered (h : w.before.Numbered) (hw : w.Inside) :
    (w.entered source root).Numbered := by
  have hentered : Entered w.node w.around w.before (w.entered source root) (w.inner source root) :=
    w.entered_inner
  have haround : w.around < w.before.forest.outline.length := hw
  generalize w.inner source root = inner at hentered
  generalize w.entered source root = s' at hentered
  cases hentered with
  | stays hopenings houtline _ =>
      refine ⟨?_, fun i kind q hi => h.ordered i kind q (houtline ▸ hi)⟩
      rw [hopenings, h.numbers, ← length_outline, ← length_outline, houtline]
  | opens _ hopenings houtline _ =>
      constructor
      · rw [hopenings, List.map_append, h.numbers, ← length_outline s'.forest, houtline, List.length_append,
          length_outline, List.length_singleton, List.range_succ]
        rfl
      · intro i kind q hi
        rw [houtline, List.getElem?_append] at hi
        split at hi
        · exact h.ordered i kind q hi
        · next hlt =>
            rw [List.getElem?_singleton] at hi
            split at hi
            · cases hi
              exact Nat.lt_of_lt_of_le haround (Nat.le_of_not_lt hlt)
            · cases hi

/-- The pass keeps scopes in the order of their numbers, from the first visit to the last. -/
theorem Resolver.Numbered.after (h : v.before.Numbered) (hv : v.Inside) :
    (v.after source root).Numbered ∧ ∀ p w, v.at? source root p = some w → w.before.Numbered := by
  have hrun : Run source root v.before (v.visits source root) (v.after source root) := v.run_visits
  obtain ⟨hlast, hall⟩ := hrun.invariant (I := Numbered) h fun w hw hbefore => by
    obtain ⟨p, hp⟩ := Visit.mem_visits.1 hw
    exact hbefore.entered (hv.at? hp)
  exact ⟨hlast, fun p w hp => hall w (Visit.mem_visits.2 ⟨p, hp⟩)⟩

end ReactiveTemplate
