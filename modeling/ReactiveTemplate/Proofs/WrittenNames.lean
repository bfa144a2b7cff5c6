/-
**The names that a mutation writes.**

The target of an assignment is a name, an access to an object, or an array or object of targets, in
parentheses or not.  A name is written itself; writing to an access writes to the object that it starts
from; and a pattern writes what its parts write.  That is a relation on trees, `ReactiveTemplate.Writes`,
with one rule for each form of target.

The names that are collected for a target are found in two steps.  The accesses around the target are
stripped, and then the names that are left in the pattern are collected.  Accesses inside of a pattern, or
in parentheses, are not stripped, and nothing is collected for them: `[a.b] = c` is taken to write nothing
(`ReactiveTemplate.inner_access_unwritten`).  This module says what is collected, and that it is what is
written when accesses stand around the target only.

Main definitions:

* `ReactiveTemplate.RootName` — the name that accesses and parentheses start from;
* `ReactiveTemplate.Writes` — the names that a target writes;
* `ReactiveTemplate.innerAccesses` — the accesses that stand in a pattern in place of names.

Main results:

* `ReactiveTemplate.writes_iff_mem` — what a target writes, as leaves and accesses;
* `ReactiveTemplate.rootName_rootObject` — stripping accesses keeps the name at the root;
* `ReactiveTemplate.targetNames_of_mutation` — **the names that are collected for a mutation**.
-/

import ReactiveTemplate.Proofs.Extraction
import ReactiveTemplate.Proofs.Wholeness.Programs

set_option relaxedAutoImplicit false
set_option autoImplicit false

namespace ReactiveTemplate

open Script

/-! ### What is written -/

/-- The name that accesses and parentheses start from. -/
inductive RootName (source : Source) : Node → String → Prop
  | name {n : Node} (h : n.kind = .identifier) : RootName source n (source.slice n)
  | access {n object : Node} {x : String} (h : n.kind.isAccess = true) (hobject : n.child? .object = some object)
      (hx : RootName source object x) : RootName source n x
  | parentheses {n inner : Node} {x : String} (h : n.kind = .parenthesizedExpression)
      (hinner : n.children = [inner]) (hx : RootName source inner x) : RootName source n x

/-- The names that a target writes, where it is left open what an access writes.  Arrays and objects may
still be spelled as values, as they are in parentheses. -/
inductive Writes (source : Source) (access : Node → String → Prop) : Node → String → Prop
  | name {n : Node} (h : n.kind = .identifier) : Writes source access n (source.slice n)
  | access {n : Node} {x : String} (h : n.kind.isAccess = true) (hx : access n x) : Writes source access n x
  | parentheses {n inner : Node} {x : String} (h : n.kind = .parenthesizedExpression)
      (hinner : inner ∈ n.children) (hx : Writes source access inner x) : Writes source access n x
  | element {n part : Node} {x : String}
      (h : n.kind = .arrayPattern ∨ n.kind = .array ∨ n.kind = .formalParameters) (hpart : part ∈ n.children)
      (hx : Writes source access part x) : Writes source access n x
  | property {n part : Node} {x : String} (h : n.kind = .objectPattern ∨ n.kind = .object)
      (hpart : part ∈ n.children) (hx : Writes source access part x) : Writes source access n x
  | shorthand {n : Node}
      (h : n.kind = .shorthandPropertyIdentifierPattern ∨ n.kind = .shorthandPropertyIdentifier) :
      Writes source access n (source.slice n)
  | value {n value : Node} {x : String} (h : n.kind = .pairPattern ∨ n.kind = .pair)
      (hvalue : n.child? .value = some value) (hx : Writes source access value x) : Writes source access n x
  | rest {n part : Node} {x : String} (h : n.kind = .restPattern ∨ n.kind = .spreadElement)
      (hpart : part ∈ n.children) (hx : Writes source access part x) : Writes source access n x
  | defaulted {n left : Node} {x : String}
      (h : n.kind = .assignmentPattern ∨ n.kind = .objectAssignmentPattern ∨ n.kind = .assignmentExpression)
      (hleft : n.child? .left = some left) (hx : Writes source access left x) : Writes source access n x

variable {source : Source} {access : Node → String → Prop} {n : Node} {x : String}

theorem Script.Kind.eq_of_bound {k : Kind} (h : k.patternPart = .bound) :
    k = .identifier ∨ k = .shorthandPropertyIdentifierPattern ∨ k = .shorthandPropertyIdentifier := by
  unfold patternPart at h
  split at h <;> simp_all

theorem Script.Kind.eq_of_all {k : Kind} (h : k.patternPart = .all) :
    k = .parenthesizedExpression ∨ (k = .arrayPattern ∨ k = .array ∨ k = .formalParameters) ∨
      (k = .objectPattern ∨ k = .object) ∨ (k = .restPattern ∨ k = .spreadElement) := by
  unfold patternPart at h
  split at h <;> simp_all

theorem Script.Kind.eq_of_only {k : Kind} {role : Role} (h : k.patternPart = .only role) :
    (role = .value ∧ (k = .pairPattern ∨ k = .pair)) ∨
      (role = .left ∧ (k = .assignmentPattern ∨ k = .objectAssignmentPattern ∨ k = .assignmentExpression)) := by
  unfold patternPart at h
  split at h <;> simp_all

theorem Script.Kind.patternPart_of_isAccess {k : Kind} (h : k.isAccess = true) : k.patternPart = .nothing := by
  unfold isAccess at h
  split at h <;> simp_all [patternPart]

/-- What a target writes, by how its kind takes part in patterns. -/
theorem writes_iff : Writes source access n x ↔
    match n.kind.patternPart with
    | .bound => source.slice n = x
    | .all => ∃ c ∈ n.children, Writes source access c x
    | .only role => ∃ c, n.child? role = some c ∧ Writes source access c x
    | .nothing => n.kind.isAccess = true ∧ access n x := by
  constructor
  · intro h
    cases h with
    | name h =>
        rw [h]
        rfl
    | access h hx =>
        rw [Kind.patternPart_of_isAccess h]
        exact ⟨h, hx⟩
    | parentheses h hinner hx =>
        rw [h]
        exact ⟨_, hinner, hx⟩
    | element h hpart hx =>
        rcases h with h | h | h <;> rw [h] <;> exact ⟨_, hpart, hx⟩
    | property h hpart hx =>
        rcases h with h | h <;> rw [h] <;> exact ⟨_, hpart, hx⟩
    | shorthand h =>
        rcases h with h | h <;> rw [h] <;> rfl
    | value h hvalue hx =>
        rcases h with h | h <;> rw [h] <;> exact ⟨_, hvalue, hx⟩
    | rest h hpart hx =>
        rcases h with h | h <;> rw [h] <;> exact ⟨_, hpart, hx⟩
    | defaulted h hleft hx =>
        rcases h with h | h | h <;> rw [h] <;> exact ⟨_, hleft, hx⟩
  · intro h
    split at h
    · next hbound =>
        subst h
        rcases Kind.eq_of_bound hbound with hkind | hkind
        · exact .name hkind
        · exact .shorthand hkind
    · next hall =>
        obtain ⟨c, hc, hx⟩ := h
        rcases Kind.eq_of_all hall with hkind | hkind | hkind | hkind
        · exact .parentheses hkind hc hx
        · exact .element hkind hc hx
        · exact .property hkind hc hx
        · exact .rest hkind hc hx
    · next role honly =>
        obtain ⟨c, hc, hx⟩ := h
        rcases Kind.eq_of_only honly with ⟨rfl, hkind⟩ | ⟨rfl, hkind⟩
        · exact .value hkind hc hx
        · exact .defaulted hkind hc hx
    · exact .access h.1 h.2

/-! ### Leaves and accesses of a target -/

mutual

/-- The accesses that stand in a target in place of names, in source order. -/
def innerAccesses : Node → List Node
  | .mk k r a b i cs =>
    match k.patternPart with
    | .bound => []
    | .all => innerAccessesAll cs
    | .only role => innerAccessesIn role cs
    | .nothing => if k.isAccess then [.mk k r a b i cs] else []

/-- The accesses in a list of targets. -/
def innerAccessesAll : List Node → List Node
  | [] => []
  | c :: cs => innerAccesses c ++ innerAccessesAll cs

/-- The accesses in the first target in a role. -/
def innerAccessesIn (role : Role) : List Node → List Node
  | [] => []
  | c :: cs => if c.role == role then innerAccesses c else innerAccessesIn role cs

end

mutual

/-- A target writes the names of its leaves, and what the accesses in it write. -/
theorem writes_iff_mem : ∀ n : Node, Writes source access n x ↔
    (∃ leaf ∈ boundLeaves n, source.slice leaf = x) ∨ ∃ a ∈ innerAccesses n, access a x
  | .mk k r a b i cs => by
      rw [writes_iff, boundLeaves, innerAccesses]
      change (match k.patternPart with
        | .bound => source.slice (.mk k r a b i cs) = x
        | .all => ∃ c ∈ cs, Writes source access c x
        | .only role => ∃ c, cs.find? (fun c => c.role == role) = some c ∧ Writes source access c x
        | .nothing => k.isAccess = true ∧ access (.mk k r a b i cs) x) ↔ _
      cases k.patternPart with
      | bound => simp
      | all => exact writes_iff_mem_all cs
      | only role => exact writes_iff_mem_in role cs
      | nothing => cases k.isAccess <;> simp

theorem writes_iff_mem_all : ∀ cs : List Node, (∃ c ∈ cs, Writes source access c x) ↔
    (∃ leaf ∈ boundLeavesAll cs, source.slice leaf = x) ∨ ∃ a ∈ innerAccessesAll cs, access a x
  | [] => by simp [boundLeavesAll, innerAccessesAll]
  | c :: cs => by
      rw [List.exists_mem_cons_iff, writes_iff_mem c, writes_iff_mem_all cs, boundLeavesAll, innerAccessesAll]
      simp only [List.mem_append, or_and_right, exists_or]
      exact or_or_or_comm

theorem writes_iff_mem_in (role : Role) : ∀ cs : List Node,
    (∃ c, cs.find? (fun c => c.role == role) = some c ∧ Writes source access c x) ↔
      (∃ leaf ∈ boundLeavesIn role cs, source.slice leaf = x) ∨ ∃ a ∈ innerAccessesIn role cs, access a x
  | [] => by simp [boundLeavesIn, innerAccessesIn]
  | c :: cs => by
      rw [List.find?_cons, boundLeavesIn, innerAccessesIn]
      cases c.role == role with
      | true => simpa using writes_iff_mem c
      | false => simpa using writes_iff_mem_in role cs

end

/-- The names that are collected are those that the target writes without its accesses, when accesses
inside of it are taken to write nothing. -/
theorem mem_targetNames : x ∈ targetNames source n ↔ Writes source (fun _ _ => False) (rootObject n) x := by
  rw [writes_iff_mem, targetNames, Names.mem_ofList, List.mem_map]
  simp

/-! ### Roots of accesses -/

mutual

/-- Stripping accesses keeps the name at the root. -/
theorem rootName_rootObject : ∀ n : Node, RootName source (rootObject n) x ↔ RootName source n x
  | .mk k r a b i cs => by
      rw [rootObject]
      split
      · next hkind =>
          cases hroot : rootObjectIn cs with
          | none => rfl
          | some root =>
              obtain ⟨object, hobject, hiff⟩ := rootName_rootObjectIn cs hroot
              refine hiff.trans ⟨fun h => .access hkind hobject h, fun h => ?_⟩
              cases h with
              | name h =>
                  obtain rfl : k = .identifier := h
                  cases hkind
              | access _ hobject' hx =>
                  obtain rfl := Option.some.inj (hobject.symm.trans hobject')
                  exact hx
              | parentheses h _ _ =>
                  obtain rfl : k = .parenthesizedExpression := h
                  cases hkind
      · rfl

theorem rootName_rootObjectIn : ∀ (cs : List Node) {root : Node}, rootObjectIn cs = some root →
    ∃ object, cs.find? (fun c => c.role == .object) = some object ∧
      (RootName source root x ↔ RootName source object x)
  | [], _, h => by cases h
  | c :: cs, root, h => by
      rw [rootObjectIn] at h
      rw [List.find?_cons]
      split at h
      · next hrole =>
          cases h
          exact ⟨c, by rw [hrole], rootName_rootObject c⟩
      · next hrole =>
          rw [Bool.eq_false_iff.2 hrole]
          exact rootName_rootObjectIn cs h

end

/-- A target that is an access writes the name at its root. -/
theorem writes_of_isAccess (h : n.kind.isAccess = true) :
    Writes source (RootName source) n x ↔ RootName source (rootObject n) x := by
  rw [rootName_rootObject, writes_iff, Kind.patternPart_of_isAccess h]
  exact and_iff_right h

theorem rootObject_of_not_isAccess (h : n.kind.isAccess = false) : rootObject n = n := by
  cases n with
  | mk k r a b i cs =>
      have hkind : k.isAccess = false := h
      rw [rootObject, hkind]
      rfl

/-- Parentheses do not change the name at the root of a node. -/
theorem InParentheses.rootName_iff {root : Node} (h : InParentheses root n) :
    RootName source root x ↔ RootName source n x := by
  induction h with
  | bare => exact Iff.rfl
  | @wrapped n inner hkind hchildren _ ih =>
      refine ih.trans ⟨fun h => .parentheses hkind hchildren h, fun h => ?_⟩
      cases h with
      | name h => rw [hkind] at h; cases h
      | access h _ _ => rw [hkind] at h; cases h
      | parentheses _ hinner hx =>
          obtain rfl : inner = _ := List.singleton_inj.1 (hchildren.symm.trans hinner)
          exact hx

/-- Parentheses do not change what a target writes. -/
theorem InParentheses.writes_iff {root : Node} (h : InParentheses root n) :
    Writes source access root x ↔ Writes source access n x := by
  induction h with
  | bare => exact Iff.rfl
  | @wrapped n inner hkind hchildren _ ih =>
      rw [ih, ReactiveTemplate.writes_iff (n := n), hkind]
      simp [Kind.patternPart, hchildren]

/-- A name is its own root, and nothing but an access or parentheses has another one. -/
theorem rootName_iff_writes {root : Node} (hroot : root.kind = .identifier ∨
    (root.kind.patternPart = .nothing ∧ root.kind.isAccess = false)) :
    RootName source root x ↔ Writes source (fun _ _ => False) root x := by
  rcases hroot with hkind | ⟨hpart, haccess⟩
  · have hwrites : Writes source (fun _ _ => False) root x ↔ source.slice root = x := by
      rw [writes_iff, hkind]
      rfl
    rw [hwrites]
    constructor
    · intro h
      cases h with
      | name _ => rfl
      | access h _ _ => rw [hkind] at h; cases h
      | parentheses h _ _ => rw [hkind] at h; cases h
    · rintro rfl
      exact .name hkind
  · have hwrites : ¬ Writes source (fun _ _ => False) root x := by
      rw [writes_iff, hpart]
      exact fun h => h.2
    refine iff_of_false (fun h => ?_) hwrites
    cases h with
    | name h => rw [h] at hpart; cases hpart
    | access h _ _ => rw [haccess] at h; cases h
    | parentheses h _ _ => rw [h] at hpart; cases hpart

/-! ### Mutations -/

/-- **The names that are collected for a mutation.**  Every assignment, compound assignment and update of a
script that was read has a target.  The names that are collected for the target are pairwise different, and
they are those that it writes once the accesses around it are stripped and if accesses inside of it are
taken to write nothing.  So of a target that is no access all names are collected but those at the roots of
accesses inside of it; and of a target that is an access, the name at its root, if this is a name in
parentheses or in none, and no name, if it is nothing that could be a target. -/
theorem targetNames_of_mutation {source : Source} (hsource : parseProgram? source.text = some source.root)
    {m : Node} (hm : m ∈ source.root.walk) (hkind : m.kind.isMutation = true) :
    ∃ t, mutationTarget? m = some t ∧ (targetNames source t).Nodup ∧
      (∀ x, x ∈ targetNames source t ↔ Writes source (fun _ _ => False) (rootObject t) x) ∧
      (t.kind.isAccess = false → ∀ x, Writes source (RootName source) t x ↔
        x ∈ targetNames source t ∨ ∃ a ∈ innerAccesses t, RootName source a x) ∧
      (t.kind.isAccess = true → ∀ root, InParentheses root (rootObject t) →
        root.kind = .identifier ∨ (root.kind.patternPart = .nothing ∧ root.kind.isAccess = false) →
        ∀ x, Writes source (RootName source) t x ↔ x ∈ targetNames source t) := by
  have hwhole : m.Whole := (parseProgram?_whole hsource).of_mem_walk hm
  obtain ⟨t, ht⟩ := exists_mutationTarget? hwhole hkind
  refine ⟨t, ht, Names.nodup_ofList _, fun x => mem_targetNames, ?_, ?_⟩
  · intro haccess x
    rw [mem_targetNames, rootObject_of_not_isAccess haccess, writes_iff_mem, writes_iff_mem t]
    simp
  · intro haccess root hin hroot x
    rw [writes_of_isAccess haccess, mem_targetNames, ← hin.rootName_iff, ← hin.writes_iff]
    exact rootName_iff_writes hroot

/-- An assignment to a pattern with an access in it, and an update of an access to a name in parentheses. -/
theorem targetNames_of_mutation_both :
    ∃ source m t m' t' root, Source.ofScript? "[a, b.c] = (u).v.w++".toList 0 = some source ∧
      parseProgram? source.text = some source.root ∧
      (m ∈ source.root.walk ∧ m.kind.isMutation = true ∧ mutationTarget? m = some t ∧
        t.kind.isAccess = false ∧ targetNames source t = ["a"] ∧
        ∀ x, Writes source (RootName source) t x ↔
          x ∈ targetNames source t ∨ ∃ a ∈ innerAccesses t, RootName source a x) ∧
      (m' ∈ source.root.walk ∧ m'.kind.isMutation = true ∧ mutationTarget? m' = some t' ∧
        t'.kind.isAccess = true ∧ InParentheses root (rootObject t') ∧ root.kind = .identifier ∧
        targetNames source t' = ["u"] ∧
        ∀ x, Writes source (RootName source) t' x ↔ x ∈ targetNames source t') := by
  have hrun : ((Source.ofScript? "[a, b.c] = (u).v.w++".toList 0).any fun source =>
      (source.root.walk.any fun m => m.kind.isMutation && (mutationTarget? m).any fun t =>
        !t.kind.isAccess && targetNames source t == ["a"]) &&
      (source.root.walk.any fun m => m.kind.isMutation && (mutationTarget? m).any fun t =>
        t.kind.isAccess && ((withoutParentheses (rootObject t)).kind == .identifier &&
          targetNames source t == ["u"]))) = true := by
    decide +kernel
  obtain ⟨source, hsource, hrun⟩ := (Option.any_eq_true _ _).1 hrun
  simp only [Bool.and_eq_true, List.any_eq_true, Option.any_eq_true, Bool.not_eq_true', beq_iff_eq] at hrun
  obtain ⟨⟨m, hm, hkind, t, ht, haccess, hnames⟩, m', hm', hkind', t', ht', haccess', hroot, hnames'⟩ := hrun
  have hparsed : parseProgram? source.text = some source.root := by
    obtain ⟨root, hroot, rfl⟩ := Option.map_eq_some_iff.1 hsource
    exact hroot
  obtain ⟨u, hu, -, -, hpattern, -⟩ := targetNames_of_mutation hparsed hm hkind
  obtain rfl : t = u := Option.some.inj (ht.symm.trans hu)
  obtain ⟨u', hu', -, -, -, hchain⟩ := targetNames_of_mutation hparsed hm' hkind'
  obtain rfl : t' = u' := Option.some.inj (ht'.symm.trans hu')
  have hin := inParentheses_withoutParentheses (rootObject t')
  exact ⟨source, m, t, m', t', _, hsource, hparsed, ⟨hm, hkind, ht, haccess, hnames, hpattern haccess⟩,
    hm', hkind', ht', haccess', hin, hroot, hnames', hchain haccess' _ hin (.inl hroot)⟩

/-- **An access inside of a pattern is taken to write nothing.**  The assignment writes to the object `a`. -/
theorem inner_access_unwritten :
    ∃ source m t, Source.ofScript? "[a.b] = c".toList 0 = some source ∧ m ∈ source.root.walk ∧
      m.kind = .assignmentExpression ∧ mutationTarget? m = some t ∧
      Writes source (RootName source) t "a" ∧ targetNames source t = [] := by
  have hrun : ((Source.ofScript? "[a.b] = c".toList 0).any fun source =>
      source.root.walk.any fun m => m.kind == .assignmentExpression && (mutationTarget? m).any fun t =>
        targetNames source t == [] && (innerAccesses t).any fun a => a.kind.isAccess &&
          (a.child? .object).any fun o => plainName? source o == some "a") = true := by
    decide +kernel
  obtain ⟨source, hsource, hrun⟩ := (Option.any_eq_true _ _).1 hrun
  simp only [Bool.and_eq_true, List.any_eq_true, Option.any_eq_true, beq_iff_eq] at hrun
  obtain ⟨m, hm, hkind, t, ht, hnames, a, ha, haccess, o, ho, hname⟩ := hrun
  obtain ⟨hidentifier, hslice⟩ := plainName?_eq_some_iff.1 hname
  have hroot : RootName source a "a" := .access haccess ho (hslice ▸ .name hidentifier)
  exact ⟨source, m, t, hsource, hm, hkind, ht, (writes_iff_mem t).2 (.inr ⟨a, ha, hroot⟩), hnames⟩

end ReactiveTemplate
