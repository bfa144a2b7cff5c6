/-
**The outermost mutations that change a tracked variable are announced.**

A mutation is *notifiable* when it writes a name that is tracked, bound and a variable of the module
where the mutation stands.  Nodes of a tree are told apart by their paths from the root.  The search
for mutations to announce finds the notifiable ones with no notifiable one around them, each once, and
gives each the indices of the names that make it notifiable.

A mutation inside a mutation is announced together with the outer one.  The index of a name that only
the inner one writes is not in the list then, and the change of that name is lost:
`ReactiveTemplate.nested_write_unannounced` is the smallest case.

Main definitions:

* `ReactiveTemplate.Tracking.ofScript` — what is tracked in a whole script;
* `ReactiveTemplate.Tracking.Notified` — the names that make a node notifiable;
* `ReactiveTemplate.scopedAt?` — the node at a path, with its scope;
* `ReactiveTemplate.Tracking.OutermostAt` — notifiable mutations with no notifiable one around them;
* `ReactiveTemplate.Tracking.Announces` — the announcement that belongs to a node.

Main results:

* `ReactiveTemplate.mem_ascendingIndices`, `ReactiveTemplate.pairwise_ascendingIndices` — the index list;
* `ReactiveTemplate.mem_outermost`, `ReactiveTemplate.nodup_outermost`,
  `ReactiveTemplate.announces_outermost` — the search finds the outermost notifiable mutations;
* `ReactiveTemplate.notified_index_announced_iff` — which changes of a script are announced.
-/

import Mathlib.Data.List.Forall2
import ReactiveTemplate.Generation.Instrument
import ReactiveTemplate.Proofs.Rendering

set_option relaxedAutoImplicit false
set_option autoImplicit false

namespace ReactiveTemplate

open Script

/-- What is tracked in a whole script: the module's scope is the outermost one. -/
def Tracking.ofScript (source : Source) (tracked : Names) (bindings : Bindings) : Tracking :=
  let (forest, r) := resolveScript source
  ⟨source, forest, r, r.root, tracked, bindings⟩

/-! ### Notifiable mutations -/

/-- A name that makes a node notifiable: the node is a mutation that writes the name, and the name is
tracked, bound and a variable of the module there. -/
structure Tracking.Notified (t : Tracking) (s : ScopedNode) (name : String) : Prop where
  isMutation : s.node.kind.isMutation = true
  written : name ∈ writtenNames t.source s.node
  tracked : name ∈ t.tracked
  bound : ∃ i, t.bindings.index? name = some i
  owner : t.forest.owner? s.scope name = some t.moduleScope

variable {t : Tracking}

theorem mem_notifiedNames {s : ScopedNode} {name : String} :
    name ∈ notifiedNames t s.scope s.node ↔ t.Notified s name := by
  have hbound : t.bindings.binds name = true ↔ ∃ i, t.bindings.index? name = some i :=
    Option.isSome_iff_exists
  unfold notifiedNames
  split
  · next hkind =>
      rw [List.mem_filter]
      simp only [Tracking.notifies, Bool.and_eq_true, decide_eq_true_eq, beq_iff_eq, hbound]
      constructor
      · rintro ⟨hwritten, ⟨htracked, hbound⟩, howner⟩
        exact ⟨hkind, hwritten, htracked, hbound, howner⟩
      · intro h
        exact ⟨h.written, ⟨h.tracked, h.bound⟩, h.owner⟩
  · next hkind =>
      constructor
      · intro h
        cases h
      · intro h
        exact absurd h.isMutation hkind

theorem notifiedNames_ne_nil {s : ScopedNode} :
    notifiedNames t s.scope s.node ≠ [] ↔ ∃ name, t.Notified s name := by
  simp only [← mem_notifiedNames]
  exact ⟨List.exists_mem_of_ne_nil _, fun ⟨_, hname⟩ => List.ne_nil_of_mem hname⟩

/-! ### Indices -/

theorem nodup_eraseDups {α : Type} [DecidableEq α] (xs : List α) : xs.eraseDups.Nodup := by
  induction h : xs.length using Nat.strong_induction_on generalizing xs with
  | _ n ih =>
      subst h
      cases xs with
      | nil => exact List.nodup_nil
      | cons x xs =>
          rw [List.eraseDups_cons]
          refine List.nodup_cons.2 ⟨fun hx => ?_, ih _ ?_ _ rfl⟩
          · simp [List.mem_eraseDups] at hx
          · exact Nat.lt_succ_of_le (List.length_filter_le _ _)

theorem mem_ascendingIndices {bindings : Bindings} {names : List String} {i : Int} :
    i ∈ ascendingIndices bindings names ↔ ∃ name ∈ names, bindings.index? name = some i := by
  rw [ascendingIndices, mem_sortBy, List.mem_eraseDups, List.mem_filterMap]

/-- The index list is ascending and has no index twice. -/
theorem pairwise_ascendingIndices (bindings : Bindings) (names : List String) :
    (ascendingIndices bindings names).Pairwise (· < ·) := by
  have hsorted : (ascendingIndices bindings names).Pairwise (· ≤ ·) := pairwise_sortBy _
  have hnodup : (ascendingIndices bindings names).Nodup :=
    (perm_sortBy _ _).nodup_iff.2 (nodup_eraseDups _)
  exact (hsorted.and hnodup).imp fun h => lt_of_le_of_ne h.1 h.2

/-! ### Paths -/

/-- The node at a path, with the scope of its children; a path gives the places of the children that
lead to the node. -/
def scopedAt? (r : Resolution) (around : ScopeId) (n : Node) : List Nat → Option ScopedNode
  | [] => some ⟨n, r.scopeAt n around⟩
  | i :: path => n.children[i]?.bind fun c => scopedAt? r (r.scopeAt n around) c path

/-- There is a notifiable mutation at a path. -/
def Tracking.NotifiableAt (t : Tracking) (around : ScopeId) (n : Node) (path : List Nat) : Prop :=
  ∃ s, scopedAt? t.resolution around n path = some s ∧ ∃ name, t.Notified s name

/-- There is a notifiable mutation at a path, and none around it. -/
structure Tracking.OutermostAt (t : Tracking) (around : ScopeId) (n : Node) (path : List Nat) :
    Prop where
  notifiable : t.NotifiableAt around n path
  outermost : ∀ q, q <+: path → q ≠ path → ¬t.NotifiableAt around n q

/-- The announcement that belongs to a node: it covers the node, and lists the indices of the names
that make it notifiable, ascending and each once. -/
structure Tracking.Announces (t : Tracking) (s : ScopedNode) (a : Announcement) : Prop where
  start : a.start = s.node.start
  stop : a.stop = s.node.stop
  ascending : a.indices.Pairwise (· < ·)
  mem_indices : ∀ i, i ∈ a.indices ↔ ∃ name, t.Notified s name ∧ t.bindings.index? name = some i

variable {around : ScopeId} {n : Node} {i : Nat} {path : List Nat}

theorem notifiableAt_nil :
    t.NotifiableAt around n [] ↔ notifiedNames t (t.resolution.scopeAt n around) n ≠ [] := by
  rw [notifiedNames_ne_nil (s := ⟨n, t.resolution.scopeAt n around⟩)]
  simp [Tracking.NotifiableAt, scopedAt?]

theorem notifiableAt_cons :
    t.NotifiableAt around n (i :: path) ↔
      ∃ c, n.children[i]? = some c ∧ t.NotifiableAt (t.resolution.scopeAt n around) c path := by
  simp only [Tracking.NotifiableAt, scopedAt?, Option.bind_eq_some_iff]
  constructor
  · rintro ⟨s, ⟨c, hc, hs⟩, hname⟩
    exact ⟨c, hc, s, hs, hname⟩
  · rintro ⟨c, hc, s, hs, hname⟩
    exact ⟨s, ⟨c, hc, hs⟩, hname⟩

theorem outermostAt_nil : t.OutermostAt around n [] ↔ t.NotifiableAt around n [] :=
  ⟨fun h => h.notifiable, fun h => ⟨h, fun _ hq hne => absurd (List.prefix_nil.1 hq) hne⟩⟩

/-- Below the root, a mutation is outermost if the root is not notifiable and it is outermost in the
child it is in. -/
theorem outermostAt_cons :
    t.OutermostAt around n (i :: path) ↔ ¬t.NotifiableAt around n [] ∧
      ∃ c, n.children[i]? = some c ∧ t.OutermostAt (t.resolution.scopeAt n around) c path := by
  constructor
  · intro h
    obtain ⟨c, hc, hpath⟩ := notifiableAt_cons.1 h.notifiable
    refine ⟨h.outermost [] ⟨_, rfl⟩ (by simp), c, hc, hpath, fun q hq hne hnot => ?_⟩
    exact h.outermost (i :: q) (List.cons_prefix_cons.2 ⟨rfl, hq⟩) (by simpa using hne)
      (notifiableAt_cons.2 ⟨c, hc, hnot⟩)
  · rintro ⟨hroot, c, hc, h⟩
    refine ⟨notifiableAt_cons.2 ⟨c, hc, h.notifiable⟩, fun q hq hne hnot => ?_⟩
    cases q with
    | nil => exact hroot hnot
    | cons j q =>
        obtain ⟨rfl, hq'⟩ := List.cons_prefix_cons.1 hq
        obtain ⟨c', hc', hnot'⟩ := notifiableAt_cons.1 hnot
        obtain rfl : c' = c := Option.some.inj (hc'.symm.trans hc)
        exact h.outermost q hq' (by simpa using hne) hnot'

/-- Every notifiable mutation is an outermost one or lies in one. -/
theorem exists_outermostAt (h : t.NotifiableAt around n path) :
    ∃ q, q <+: path ∧ t.OutermostAt around n q := by
  induction path generalizing n around with
  | nil => exact ⟨[], List.prefix_rfl, outermostAt_nil.2 h⟩
  | cons i path ih =>
      -- the first notifiable node on the way down is the outermost one
      by_cases hroot : t.NotifiableAt around n []
      · exact ⟨[], ⟨_, rfl⟩, outermostAt_nil.2 hroot⟩
      · obtain ⟨c, hc, hpath⟩ := notifiableAt_cons.1 h
        obtain ⟨q, hq, hout⟩ := ih hpath
        exact ⟨i :: q, List.cons_prefix_cons.2 ⟨rfl, hq⟩, outermostAt_cons.2 ⟨hroot, c, hc, hout⟩⟩

/-! ### The search -/

mutual

/-- The paths at which the search finds something to announce, in source order. -/
def outermost (t : Tracking) (around : ScopeId) : Node → List (List Nat)
  | .mk k r a b i cs =>
    let scope := t.resolution.scopeAt (.mk k r a b i cs) around
    match notifiedNames t scope (.mk k r a b i cs) with
    | [] => outermostAll t scope 0 cs
    | _ => [[]]

/-- The paths in several trees, the first of which stands at the given place. -/
def outermostAll (t : Tracking) (around : ScopeId) (place : Nat) : List Node → List (List Nat)
  | [] => []
  | c :: cs => (outermost t around c).map (place :: ·) ++ outermostAll t around (place + 1) cs

end

mutual

/-- The search goes to the outermost notifiable mutations. -/
theorem mem_outermost :
    ∀ {n : Node} {around : ScopeId} {path : List Nat},
      path ∈ outermost t around n ↔ t.OutermostAt around n path
  | .mk k r a b i cs, around, path => by
      rw [outermost]
      split
      · next hnil =>
          have hroot : ¬t.NotifiableAt around (.mk k r a b i cs) [] := by
            rw [notifiableAt_nil, hnil]
            simp
          rw [mem_outermostAll]
          cases path with
          | nil => simp [outermostAt_nil, hroot]
          | cons j path =>
              rw [outermostAt_cons]
              constructor
              · rintro ⟨j', c, q, hc, heq, hout⟩
                obtain ⟨rfl, rfl⟩ := List.cons.inj heq
                exact ⟨hroot, c, by simpa [Node.children] using hc, hout⟩
              · rintro ⟨-, c, hc, hout⟩
                exact ⟨j, c, path, hc, by simp, hout⟩
      · next hne =>
          have hroot : t.NotifiableAt around (.mk k r a b i cs) [] := notifiableAt_nil.2 hne
          cases path with
          | nil => simp [outermostAt_nil, hroot]
          | cons j path => simp [outermostAt_cons, hroot]

theorem mem_outermostAll :
    ∀ {cs : List Node} {around : ScopeId} {place : Nat} {path : List Nat},
      path ∈ outermostAll t around place cs ↔
        ∃ j c q, cs[j]? = some c ∧ path = (place + j) :: q ∧ t.OutermostAt around c q
  | [], around, place, path => by simp [outermostAll]
  | c :: cs, around, place, path => by
      rw [outermostAll, List.mem_append, List.mem_map, mem_outermostAll]
      constructor
      · rintro (⟨q, hq, rfl⟩ | ⟨j, c', q, hc', rfl, hout⟩)
        · exact ⟨0, c, q, rfl, rfl, mem_outermost.1 hq⟩
        · exact ⟨j + 1, c', q, hc', by congr 1; omega, hout⟩
      · rintro ⟨j, c', q, hc', rfl, hout⟩
        cases j with
        | zero =>
            obtain rfl : c = c' := by simpa using hc'
            exact .inl ⟨q, mem_outermost.2 hout, rfl⟩
        | succ j => exact .inr ⟨j, c', q, hc', by congr 1; omega, hout⟩

end

mutual

/-- The search finds nothing twice. -/
theorem nodup_outermost : ∀ (n : Node) (around : ScopeId), (outermost t around n).Nodup
  | .mk k r a b i cs, around => by
      rw [outermost]
      split
      · exact nodup_outermostAll cs _ 0
      · exact List.nodup_singleton _

theorem nodup_outermostAll :
    ∀ (cs : List Node) (around : ScopeId) (place : Nat), (outermostAll t around place cs).Nodup
  | [], around, place => List.nodup_nil
  | c :: cs, around, place => by
      rw [outermostAll]
      refine List.nodup_append.2 ⟨?_, nodup_outermostAll cs around (place + 1), ?_⟩
      · exact (nodup_outermost c around).map fun p q h => (List.cons.inj h).2
      · -- the paths differ in their first place
        intro p hp q hq hpq
        obtain ⟨p', -, rfl⟩ := List.mem_map.1 hp
        obtain ⟨j, -, q', -, rfl, -⟩ := mem_outermostAll.1 hq
        have := (List.cons.inj hpq).1
        omega

end

/-- The announcement of a notifiable node. -/
theorem Tracking.Announces.ofNames (t : Tracking) (s : ScopedNode) :
    t.Announces s ⟨s.node.start, s.node.stop,
      ascendingIndices t.bindings (notifiedNames t s.scope s.node)⟩ where
  start := rfl
  stop := rfl
  ascending := pairwise_ascendingIndices _ _
  mem_indices i := by
    rw [mem_ascendingIndices]
    simp only [mem_notifiedNames]

mutual

/-- What is found belongs to the nodes at the outermost paths, one by one. -/
theorem announces_outermost :
    ∀ (n : Node) (around : ScopeId), List.Forall₂
      (fun path a => ∃ s, scopedAt? t.resolution around n path = some s ∧ t.Announces s a)
      (outermost t around n) (announcements t around n)
  | .mk k r a b i cs, around => by
      have hroot := Tracking.Announces.ofNames t
        ⟨.mk k r a b i cs, t.resolution.scopeAt (.mk k r a b i cs) around⟩
      cases hnames : notifiedNames t (t.resolution.scopeAt (.mk k r a b i cs) around)
          (.mk k r a b i cs) with
      | nil =>
          simp only [outermost, announcements, hnames]
          refine (announces_outermostAll cs _ 0).imp ?_
          rintro path a ⟨j, c, q, s, hc, rfl, hs, ha⟩
          refine ⟨s, ?_, ha⟩
          rw [scopedAt?, Nat.zero_add]
          exact Option.bind_eq_some_iff.2 ⟨c, hc, hs⟩
      | cons name names =>
          simp only [outermost, announcements, hnames]
          rw [hnames] at hroot
          exact .cons ⟨_, rfl, hroot⟩ .nil

theorem announces_outermostAll :
    ∀ (cs : List Node) (around : ScopeId) (place : Nat), List.Forall₂
      (fun path a => ∃ j c q s, cs[j]? = some c ∧ path = (place + j) :: q ∧
        scopedAt? t.resolution around c q = some s ∧ t.Announces s a)
      (outermostAll t around place cs) (announcementsAll t around cs)
  | [], around, place => by
      rw [outermostAll, announcementsAll]
      exact .nil
  | c :: cs, around, place => by
      rw [outermostAll, announcementsAll]
      refine List.rel_append ?_ ?_
      · rw [List.forall₂_map_left_iff]
        refine (announces_outermost c around).imp ?_
        rintro q a ⟨s, hs, ha⟩
        exact ⟨0, c, q, s, rfl, rfl, hs, ha⟩
      · refine (announces_outermostAll cs around (place + 1)).imp ?_
        rintro path a ⟨j, c', q, s, hc', rfl, hs, ha⟩
        exact ⟨j + 1, c', q, s, hc', by congr 1; omega, hs, ha⟩

end

/-! ### Which changes are announced -/

/-- A path leads into one outermost notifiable mutation at most. -/
theorem Tracking.OutermostAt.eq_of_isPrefix {p q : List Nat} (hp : t.OutermostAt around n p)
    (hq : t.OutermostAt around n q) (hpath : p <+: path) (hqath : q <+: path) : p = q := by
  by_contra hne
  rcases List.prefix_or_prefix_of_prefix hpath hqath with h | h
  · exact hq.outermost p h hne hp.notifiable
  · exact hp.outermost q h (Ne.symm hne) hq.notifiable

/-- What is announced for an outermost path. -/
theorem Tracking.OutermostAt.exists_announces (h : t.OutermostAt around n path) :
    ∃ s a, scopedAt? t.resolution around n path = some s ∧ a ∈ announcements t around n ∧
      t.Announces s a := by
  -- paths and announcements are found in step, so both stand at the same place
  have hall := announces_outermost (t := t) n around
  obtain ⟨k, hk, rfl⟩ := List.getElem_of_mem (mem_outermost.2 h)
  have hk' : k < (announcements t around n).length := hall.length_eq ▸ hk
  obtain ⟨s, hs, ha⟩ := hall.get hk hk'
  exact ⟨s, _, hs, List.getElem_mem hk', ha⟩

/-- **Every mutation that changes a tracked variable is announced, with the indices that the outermost
mutation around it gives.**  The node at `path` writes the name: then it is an outermost notifiable
mutation or lies in one, and in one only, and that one is announced.  The index of the name is in the
announcement exactly if the outermost mutation itself writes a tracked name of that index, as it always
does when it is the node itself. -/
theorem notified_index_announced_iff (t : Tracking) (around : ScopeId) (n : Node) {path : List Nat}
    {s : ScopedNode} {name : String} {i : Int}
    (hs : scopedAt? t.resolution around n path = some s) (hname : t.Notified s name)
    (hi : t.bindings.index? name = some i) :
    ∃ q w a, (q <+: path ∧ t.OutermostAt around n q ∧
        ∀ q', q' <+: path → t.OutermostAt around n q' → q' = q) ∧
      scopedAt? t.resolution around n q = some w ∧ a ∈ announcements t around n ∧
      t.Announces w a ∧
      (i ∈ a.indices ↔ ∃ other, t.Notified w other ∧ t.bindings.index? other = some i) ∧
      (q = path → i ∈ a.indices) := by
  obtain ⟨q, hq, hout⟩ := exists_outermostAt ⟨s, hs, name, hname⟩
  obtain ⟨w, a, hw, ha, hann⟩ := hout.exists_announces
  refine ⟨q, w, a, ⟨hq, hout, fun q' hq' hout' => hout'.eq_of_isPrefix hout hq' hq⟩, hw, ha, hann,
    hann.mem_indices i, ?_⟩
  rintro rfl
  obtain rfl : w = s := Option.some.inj (hw.symm.trans hs)
  exact (hann.mem_indices i).2 ⟨name, hname, hi⟩

/-- The case of one mutation inside another: the mutation of `b` lies in the one of `a`, and the only
announcement has the index of `a`. -/
theorem exists_nested_write :
    ∃ source s, Source.ofScript? "let a, b; a = b = 1".toList 0 = some source ∧
      let t := Tracking.ofScript source ["a", "b"] [("a", 0), ("b", 1)]
      scopedAt? t.resolution t.resolution.root source.root [1, 0, 1] = some s ∧ t.Notified s "b" ∧
        (announcements t t.resolution.root source.root).map Announcement.indices = [[0]] := by
  have hrun : ((Source.ofScript? "let a, b; a = b = 1".toList 0).any fun source =>
      let t := Tracking.ofScript source ["a", "b"] [("a", 0), ("b", 1)]
      (scopedAt? t.resolution t.resolution.root source.root [1, 0, 1]).any fun s =>
        (notifiedNames t s.scope s.node).contains "b" &&
          (announcements t t.resolution.root source.root).map Announcement.indices == [[0]]) = true := by
    decide +kernel
  obtain ⟨source, hsource, hrun⟩ := (Option.any_eq_true _ _).1 hrun
  obtain ⟨s, hs, hrun⟩ := (Option.any_eq_true _ _).1 hrun
  rw [Bool.and_eq_true, List.contains_iff_mem, mem_notifiedNames, beq_iff_eq] at hrun
  exact ⟨source, s, hsource, hs, hrun⟩

/-- The mutation of `b` in `a = b = 1` is announced with the mutation of `a`. -/
theorem notified_index_announced_iff_nested :
    ∃ source s, Source.ofScript? "let a, b; a = b = 1".toList 0 = some source ∧
      let t := Tracking.ofScript source ["a", "b"] [("a", 0), ("b", 1)]
      let around := t.resolution.root
      (scopedAt? t.resolution around source.root [1, 0, 1] = some s ∧ t.Notified s "b" ∧
        t.bindings.index? "b" = some 1) ∧
      ∃ q w a, (q <+: [1, 0, 1] ∧ t.OutermostAt around source.root q ∧
          ∀ q', q' <+: [1, 0, 1] → t.OutermostAt around source.root q' → q' = q) ∧
        scopedAt? t.resolution around source.root q = some w ∧
        a ∈ announcements t around source.root ∧ t.Announces w a ∧
        (1 ∈ a.indices ↔ ∃ other, t.Notified w other ∧ t.bindings.index? other = some 1) ∧
        (q = [1, 0, 1] → 1 ∈ a.indices) := by
  obtain ⟨source, s, hsource, hs, hname, -⟩ := exists_nested_write
  exact ⟨source, s, hsource, ⟨hs, hname, rfl⟩, notified_index_announced_iff _ _ _ hs hname rfl⟩

/-- **The change of a variable is lost** when it is written only inside the mutation of another one:
no announcement of the script has its index. -/
theorem nested_write_unannounced :
    ∃ source s, Source.ofScript? "let a, b; a = b = 1".toList 0 = some source ∧
      let t := Tracking.ofScript source ["a", "b"] [("a", 0), ("b", 1)]
      scopedAt? t.resolution t.resolution.root source.root [1, 0, 1] = some s ∧ t.Notified s "b" ∧
        t.bindings.index? "b" = some 1 ∧
        ∀ a ∈ announcements t t.resolution.root source.root, 1 ∉ a.indices := by
  obtain ⟨source, s, hsource, hs, hname, hfound⟩ := exists_nested_write
  refine ⟨source, s, hsource, hs, hname, rfl, fun a ha h => ?_⟩
  have hmem : a.indices ∈ [[(0 : Int)]] := hfound ▸ List.mem_map_of_mem ha
  rw [List.mem_singleton.1 hmem] at h
  simp at h

end ReactiveTemplate
