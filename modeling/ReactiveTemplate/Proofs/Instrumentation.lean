/-
**Instrumenting a script rewrites its tree.**

Mutations are announced by recording texts at byte offsets, and a statement of the script is rendered
by picking the texts that fall into it.  This module shows that the result is what one gets by going
through the tree and putting a call around the text of each outermost notifiable mutation, all other
characters being left as they are.

The patch is compared with the tree from the top down.  A node's extent takes exactly the insertions
that were found in its tree; the extents of its children and the gaps between them share these among
themselves, since the children lie in it one after the other.

Main definitions:

* `ReactiveTemplate.announcedText` — a text put in a call that announces a change;
* `ReactiveTemplate.rewritten` — the text of a tree with its outermost notifiable mutations announced.

Main results:

* `ReactiveTemplate.between_announce` — a whole tree takes all insertions, in the order of the search;
* `ReactiveTemplate.apply_eq_rewritten` — rendering a node rewrites its tree;
* `ReactiveTemplate.announce_script_eq_rewritten` — instrumenting a script.
-/

import ReactiveTemplate.Proofs.Announcements
import ReactiveTemplate.Proofs.Extents.Statements

set_option relaxedAutoImplicit false
set_option autoImplicit false

namespace ReactiveTemplate

open Script

/-! ### The rewriting -/

/-- A text put in a call that announces the change of the bindings with the given indices. -/
def announcedText (indices : List Int) (cs : List Char) : List Char :=
  "$$invalidate([".toList ++ (commaSeparated indices).toList ++ "], ".toList ++ cs ++ ")".toList

instance (t : Tracking) (s : ScopedNode) : Decidable (∃ name, t.Notified s name) :=
  decidable_of_iff _ notifiedNames_ne_nil

mutual

/-- The text of a tree in which each outermost notifiable mutation is put in a call that announces
the indices of the names that make it notifiable. -/
def rewritten (t : Tracking) (around : ScopeId) : Node → List Char
  | .mk k r a b i cs =>
    let s : ScopedNode := ⟨.mk k r a b i cs, t.resolution.scopeAt (.mk k r a b i cs) around⟩
    if ∃ name, t.Notified s name then
      announcedText (ascendingIndices t.bindings (notifiedNames t s.scope s.node))
        (Text.byteSlice t.source.text a b)
    else rewrittenBetween t s.scope a b cs

/-- The text from one offset to another with the trees in it rewritten, and what stands around them
left as it is. -/
def rewrittenBetween (t : Tracking) (around : ScopeId) (start stop : Nat) : List Node → List Char
  | [] => Text.byteSlice t.source.text start stop
  | c :: cs => Text.byteSlice t.source.text start c.start ++ rewritten t around c ++
      rewrittenBetween t around c.stop stop cs

end

variable {t : Tracking} {around : ScopeId} {n : Node} {cs : List Node} {a b c : Nat}

theorem rewritten_of_ne_nil
    (h : notifiedNames t (t.resolution.scopeAt n around) n ≠ []) :
    rewritten t around n = announcedText
      (ascendingIndices t.bindings (notifiedNames t (t.resolution.scopeAt n around) n))
      (Text.byteSlice t.source.text n.start n.stop) := by
  cases n with
  | mk k r a b i cs =>
      rw [rewritten]
      exact if_pos (notifiedNames_ne_nil.1 h)

theorem rewritten_of_eq_nil
    (h : notifiedNames t (t.resolution.scopeAt n around) n = []) :
    rewritten t around n =
      rewrittenBetween t (t.resolution.scopeAt n around) n.start n.stop n.children := by
  cases n with
  | mk k r a b i cs =>
      rw [rewritten]
      exact if_neg fun hname => notifiedNames_ne_nil.2 hname h

/-! ### The insertions -/

/-- The insertions that announce a mutation. -/
def Announcement.insertions (a : Announcement) : List Insertion :=
  [⟨a.start, .before, Text.bytes (announcementHead a.indices ++ ", ").toList⟩,
    ⟨a.stop, .after, Text.bytes ")".toList⟩]

theorem insertions_announce (p : Patch) (found : List Announcement) :
    (announce p found).insertions = p.insertions ++ found.flatMap Announcement.insertions := by
  induction found generalizing p with
  | nil => simp [announce]
  | cons a found ih =>
      have hstep : announce p (a :: found) = announce (a.record p) found := rfl
      rw [hstep, ih, List.flatMap_cons, ← List.append_assoc]
      simp [Announcement.record, Announcement.insertions, Patch.wrap, Patch.insert]

theorem size_announce (p : Patch) (found : List Announcement) :
    (announce p found).size = p.size + 2 * found.length := by
  rw [Patch.size, insertions_announce, List.length_append, List.length_flatMap]
  have hsum : (found.map fun a => a.insertions.length).sum = 2 * found.length := by
    simp [Announcement.insertions, Nat.mul_comm]
  rw [hsum, Patch.size]

theorem announcements_of_ne_nil (h : notifiedNames t (t.resolution.scopeAt n around) n ≠ []) :
    announcements t around n = [⟨n.start, n.stop,
      ascendingIndices t.bindings (notifiedNames t (t.resolution.scopeAt n around) n)⟩] := by
  cases n with
  | mk k r a b i cs =>
      rw [announcements]
      split
      · next hnil => exact absurd hnil h
      · next hne => rfl

theorem announcements_of_eq_nil (h : notifiedNames t (t.resolution.scopeAt n around) n = []) :
    announcements t around n = announcementsAll t (t.resolution.scopeAt n around) n.children := by
  cases n with
  | mk k r a b i cs =>
      rw [announcements, h]
      rfl

/-- The insertions that the search finds in a tree. -/
def found (t : Tracking) (around : ScopeId) (n : Node) : List Insertion :=
  (announcements t around n).flatMap Announcement.insertions

/-- The insertions that the search finds in several trees. -/
def foundAll (t : Tracking) (around : ScopeId) (cs : List Node) : List Insertion :=
  (announcementsAll t around cs).flatMap Announcement.insertions

theorem foundAll_cons (c : Node) :
    foundAll t around (c :: cs) = found t around c ++ foundAll t around cs := by
  rw [foundAll, announcementsAll, List.flatMap_append]
  rfl

/-- Insertions in the order of their ranks, all of which belong to the slice between two offsets. -/
structure Script.Insertion.Ordered (a b : Nat) (is : List Insertion) : Prop where
  pairwise : is.Pairwise fun i j => i.rank ≤ j.rank
  lower : ∀ i ∈ is, 2 * a < i.rank
  upper : ∀ i ∈ is, i.rank ≤ 2 * b

namespace Script.Insertion.Ordered

variable {is js : List Insertion}

theorem nil (a b : Nat) : Ordered a b [] :=
  ⟨List.Pairwise.nil, by simp, by simp⟩

theorem mono {a' b' : Nat} (h : Ordered a b is) (ha : a' ≤ a) (hb : b ≤ b') : Ordered a' b' is := by
  refine ⟨h.pairwise, fun i hi => ?_, fun i hi => ?_⟩
  · have := h.lower i hi
    omega
  · have := h.upper i hi
    omega

theorem append (h : Ordered a b is) (h' : Ordered b c js) (hab : a ≤ b) (hbc : b ≤ c) :
    Ordered a c (is ++ js) := by
  have h₁ := h.mono (Nat.le_refl a) hbc
  have h₂ := h'.mono hab (Nat.le_refl c)
  refine ⟨List.pairwise_append.2 ⟨h.pairwise, h'.pairwise, fun i hi j hj => ?_⟩, ?_, ?_⟩
  · have := h.upper i hi
    have := h'.lower j hj
    omega
  · exact fun i hi => (List.mem_append.1 hi).elim (h₁.lower i) (h₂.lower i)
  · exact fun i hi => (List.mem_append.1 hi).elim (h₁.upper i) (h₂.upper i)

end Script.Insertion.Ordered

/-- The two insertions around a mutation that is not empty. -/
theorem Announcement.ordered_insertions (h : a < b) (indices : List Int) :
    Insertion.Ordered a b (insertions ⟨a, b, indices⟩) := by
  constructor <;> simp [Announcement.insertions, Insertion.rank] <;> omega

mutual

/-- What is found in a tree belongs to its extent. -/
theorem ordered_found {text : List Char} :
    ∀ {n : Node} {around : ScopeId}, n.Placed text →
      Insertion.Ordered n.start n.stop (found t around n)
  | .mk k r a b i cs, around, h => by
      by_cases hnil : notifiedNames t (t.resolution.scopeAt (.mk k r a b i cs) around)
          (.mk k r a b i cs) = []
      · rw [found, announcements_of_eq_nil hnil]
        exact ordered_foundAll h.start_lt_stop.le h.children
      · rw [found, announcements_of_ne_nil hnil, List.flatMap_singleton]
        exact Announcement.ordered_insertions h.start_lt_stop _

theorem ordered_foundAll {text : List Char} :
    ∀ {cs : List Node} {around : ScopeId} {a b : Nat}, a ≤ b → Node.PlacedIn text a b cs →
      Insertion.Ordered a b (foundAll t around cs)
  | [], around, a, b, _, _ => .nil a b
  | c :: cs, around, a, b, hab, h => by
      obtain ⟨hstart, hc, hstop, hcs⟩ := Node.placedIn_cons.1 h
      have hlt := hc.start_lt_stop
      rw [foundAll_cons]
      exact ((ordered_found hc).mono hstart (Nat.le_refl _)).append
        (ordered_foundAll hstop hcs) (by omega) hstop

end

/-! ### What a slice takes -/

variable {p : Patch} {is js : List Insertion} {text : List Char}

/-- The insertions of a slice, cut by rank at an offset in it. -/
theorem Script.Patch.between_of_append (h : p.between a c = is ++ js) (hab : a ≤ b) (hbc : b ≤ c)
    (his : ∀ i ∈ is, i.rank ≤ 2 * b) (hjs : ∀ j ∈ js, 2 * b < j.rank) :
    p.between a b = is ∧ p.between b c = js := by
  have hcut : p.between a b ++ p.between b c = is ++ js := (p.between_append hab hbc).symm.trans h
  -- both sides have the same elements of rank at most `2 * b`, which are their first parts
  have hfilter : ∀ {xs ys : List Insertion}, (∀ i ∈ xs, i.rank ≤ 2 * b) →
      (∀ j ∈ ys, 2 * b < j.rank) → (xs ++ ys).filter (fun i => i.rank ≤ 2 * b) = xs := by
    intro xs ys hxs hys
    rw [List.filter_append, List.filter_eq_self.2 (by simpa using hxs),
      List.filter_eq_nil_iff.2 (by simpa using hys), List.append_nil]
  have hleft : p.between a b = is := by
    have hboth := congrArg (List.filter fun i => decide (i.rank ≤ 2 * b)) hcut
    rwa [hfilter (fun i hi => (mem_between.1 hi).2.2) fun j hj => (mem_between.1 hj).2.1,
      hfilter his hjs] at hboth
  rw [hleft] at hcut
  exact ⟨hleft, List.append_cancel_left hcut⟩

/-- The first of several trees takes what is found in it, nothing stands before it, and the others
take the rest. -/
theorem between_cons {n : Node} (h : Node.PlacedIn text a b (n :: cs))
    (hp : p.between a b = foundAll t around (n :: cs)) :
    p.between a n.start = [] ∧ p.between n.start n.stop = found t around n ∧
      p.between n.stop b = foundAll t around cs := by
  obtain ⟨hstart, hn, hstop, hcs⟩ := Node.placedIn_cons.1 h
  have hlt := hn.start_lt_stop
  have hfirst : Insertion.Ordered n.start n.stop (found t around n) := ordered_found hn
  have hothers : Insertion.Ordered n.stop b (foundAll t around cs) := ordered_foundAll hstop hcs
  rw [foundAll_cons] at hp
  -- first cut behind the tree, then before it
  obtain ⟨hfront, hrest⟩ := Patch.between_of_append hp (by omega) hstop hfirst.upper hothers.lower
  have hfront' : p.between a n.stop = [] ++ found t around n := hfront
  obtain ⟨hgap, htree⟩ := Patch.between_of_append hfront' hstart hlt.le (by simp) hfirst.lower
  exact ⟨hgap, htree, hrest⟩

/-- Each of several trees takes what is found in it. -/
theorem between_of_mem {n : Node} (h : Node.PlacedIn text a b cs)
    (hp : p.between a b = foundAll t around cs) (hn : n ∈ cs) :
    p.between n.start n.stop = found t around n := by
  induction cs generalizing a with
  | nil => cases hn
  | cons c cs ih =>
      obtain ⟨-, htree, hrest⟩ := between_cons h hp
      rcases List.mem_cons.1 hn with rfl | hn
      · exact htree
      · exact ih (Node.placedIn_cons.1 h).2.2.2 hrest hn

/-- A whole tree takes all insertions that are found in it, in the order of the search. -/
theorem between_announce {found : List Announcement}
    (h : Insertion.Ordered a b (found.flatMap Announcement.insertions)) :
    (announce .empty found).between a b = found.flatMap Announcement.insertions := by
  have hall : (announce .empty found).insertions = found.flatMap Announcement.insertions :=
    insertions_announce .empty found
  -- the search goes in source order, so there is nothing to sort
  rw [Patch.between, Patch.sorted, hall, sortBy_eq_self h.pairwise]
  exact List.filter_eq_self.2 fun i hi => Insertion.within_iff.2 ⟨h.lower i hi, h.upper i hi⟩

/-! ### Rendering -/

theorem toList_announcementHead (indices : List Int) :
    (announcementHead indices ++ ", ").toList =
      "$$invalidate([".toList ++ (commaSeparated indices).toList ++ "], ".toList := by
  have hhead : announcementHead indices = "$$invalidate([" ++ commaSeparated indices ++ "]" := rfl
  have hclose : "]" ++ ", " = "], " := rfl
  rw [hhead, String.append_assoc, hclose, String.toList_append, String.toList_append]

theorem bytes_announcedText (indices : List Int) (cs : List Char) :
    Text.bytes (announcedText indices cs) =
      Text.bytes (announcementHead indices ++ ", ").toList ++ Text.bytes cs ++
        Text.bytes ")".toList := by
  rw [toList_announcementHead]
  exact (Text.bytes_append _ _).trans (congrArg (· ++ _) (Text.bytes_append _ _))

/-- A slice with one announced mutation that fills it. -/
theorem apply_announced (source : List UInt8) {indices : List Int}
    (hp : p.between a b = Announcement.insertions ⟨a, b, indices⟩) :
    p.apply source a b = Text.bytes (announcementHead indices ++ ", ").toList ++
      bytesBetween source a b ++ Text.bytes ")".toList := by
  change Patch.renderFrom source b a (p.between a b) = _
  rw [hp]
  simp [Announcement.insertions, Patch.renderFrom, bytesBetween]

mutual

/-- **Rendering a node rewrites its tree**, if the patch has in the node's extent what is found in the
tree. -/
theorem apply_eq_rewritten :
    ∀ {n : Node} {around : ScopeId}, n.Placed t.source.text →
      p.between n.start n.stop = found t around n →
      p.apply (Text.bytes t.source.text) n.start n.stop = Text.bytes (rewritten t around n)
  | .mk k r a b i cs, around, h, hp => by
      have hlt := h.start_lt_stop
      by_cases hnil : notifiedNames t (t.resolution.scopeAt (.mk k r a b i cs) around)
          (.mk k r a b i cs) = []
      · rw [found, announcements_of_eq_nil hnil] at hp
        rw [rewritten_of_eq_nil hnil]
        exact apply_eq_rewrittenBetween h.boundary_start h.boundary_stop hlt.le h.children hp
      · rw [found, announcements_of_ne_nil hnil, List.flatMap_singleton] at hp
        rw [rewritten_of_ne_nil hnil, bytes_announcedText,
          ← bytesBetween_bytes h.boundary_start h.boundary_stop hlt.le]
        exact apply_announced _ hp

/-- Rendering from one offset to another rewrites the trees in between. -/
theorem apply_eq_rewrittenBetween :
    ∀ {cs : List Node} {around : ScopeId} {a b : Nat}, Text.Boundary t.source.text a →
      Text.Boundary t.source.text b → a ≤ b → Node.PlacedIn t.source.text a b cs →
      p.between a b = foundAll t around cs →
      p.apply (Text.bytes t.source.text) a b = Text.bytes (rewrittenBetween t around a b cs)
  | [], around, a, b, ha, hb, hab, _, hp => by
      rw [rewrittenBetween, Patch.apply_of_between_eq_nil _ hp, bytesBetween_bytes ha hb hab]
  | c :: cs, around, a, b, ha, hb, hab, h, hp => by
      obtain ⟨hstart, hc, hstop, hcs⟩ := Node.placedIn_cons.1 h
      obtain ⟨hgap, htree, hrest⟩ := between_cons h hp
      have hlt := hc.start_lt_stop
      have hgap' := Patch.apply_of_between_eq_nil (Text.bytes t.source.text) hgap
      have htree' := apply_eq_rewritten hc htree
      have hrest' := apply_eq_rewrittenBetween hc.boundary_stop hb hstop hcs hrest
      have hac : a ≤ c.stop := by omega
      calc p.apply (Text.bytes t.source.text) a b
          = p.apply (Text.bytes t.source.text) a c.start ++
              p.apply (Text.bytes t.source.text) c.start c.stop ++
              p.apply (Text.bytes t.source.text) c.stop b := by
            rw [p.apply_append _ hac hstop, p.apply_append _ hstart hlt.le]
        _ = Text.bytes (Text.byteSlice t.source.text a c.start) ++
              Text.bytes (rewritten t around c) ++
              Text.bytes (rewrittenBetween t around c.stop b cs) := by
            rw [hgap', htree', hrest', bytesBetween_bytes ha hc.boundary_start hstart]
        _ = Text.bytes (rewrittenBetween t around a b (c :: cs)) := by
            rw [rewrittenBetween, Text.bytes_append, Text.bytes_append]

end

/-! ### Whole scripts -/

/-- The tree of a script is a program that reaches to the end of its text, with its statements in it
one after the other. -/
theorem Script.Source.placed_ofScript? {text : List Char} {offset : Nat} {source : Source}
    (h : Source.ofScript? text offset = some source) :
    source.root.kind = .program ∧ Text.Boundary source.text source.root.start ∧
      source.root.start ≤ source.root.stop ∧ source.root.stop = Text.byteLength source.text ∧
      Node.PlacedIn source.text source.root.start source.root.stop source.root.children := by
  obtain ⟨root, hroot, rfl⟩ := Option.map_eq_some_iff.1 h
  exact parseProgram?_placed hroot

theorem Text.boundary_zero (text : List Char) : Text.Boundary text 0 :=
  ⟨[], text, rfl, rfl⟩

theorem Text.boundary_byteLength (text : List Char) : Text.Boundary text (Text.byteLength text) :=
  ⟨text, [], by simp, rfl⟩

/-- A program is no mutation, so its announcements are those of its statements. -/
theorem notifiedNames_program (h : n.kind = .program) (scope : ScopeId) :
    notifiedNames t scope n = [] := by
  simp [notifiedNames, h, Kind.isMutation, Kind.isAssignment]

section Scripts

variable {offset : Nat} {source : Source} (tracked : Names) (bindings : Bindings)

/-- In the patch of a script nothing stands before the first token, and the statements take what is
found in them. -/
theorem between_script (h : Source.ofScript? text offset = some source) :
    let t := Tracking.ofScript source tracked bindings
    let p := announce .empty (announcements t t.resolution.root source.root)
    p.between 0 source.root.start = [] ∧
      p.between source.root.start source.root.stop =
        foundAll t (t.resolution.scopeAt source.root t.resolution.root) source.root.children := by
  intro t p
  obtain ⟨hkind, -, hle, -, hplaced⟩ := Source.placed_ofScript? h
  have hfound : Insertion.Ordered source.root.start source.root.stop
      (found t t.resolution.root source.root) := by
    rw [found, announcements_of_eq_nil (notifiedNames_program hkind _)]
    exact ordered_foundAll hle hplaced
  have hall : p.between 0 source.root.stop = [] ++ found t t.resolution.root source.root :=
    between_announce (hfound.mono (Nat.zero_le _) (Nat.le_refl _))
  obtain ⟨hgap, htree⟩ :=
    Patch.between_of_append hall (Nat.zero_le _) hle (by simp) hfound.lower
  refine ⟨hgap, htree.trans ?_⟩
  rw [found, announcements_of_eq_nil (notifiedNames_program hkind _)]
  rfl

/-- **Instrumenting a script rewrites its tree.**  For every script, every set of tracked names and all
bindings:

* the announcements belong to the notifiable mutations that have no notifiable one around them, one by
  one, each with the ascending indices of exactly the names that make it notifiable;
* the patch has two insertions for each of them;
* the patched text of the whole script is what stands before its first token and its rewritten tree,
  and the patched text of every statement at top level is its rewritten tree. -/
theorem announce_script_eq_rewritten (h : Source.ofScript? text offset = some source) :
    let t := Tracking.ofScript source tracked bindings
    let around := t.resolution.root
    let found := announcements t around source.root
    let patch := announce .empty found
    (∃ paths : List (List Nat), paths.Nodup ∧
      (∀ path, path ∈ paths ↔ t.OutermostAt around source.root path) ∧
      List.Forall₂ (fun path a => ∃ s, scopedAt? t.resolution around source.root path = some s ∧
        t.Announces s a) paths found ∧
      found.length = paths.length ∧ patch.size = 2 * paths.length) ∧
    patch.text? (Text.bytes source.text) 0 (Text.byteLength source.text) =
      some (String.ofList (Text.byteSlice source.text 0 source.root.start ++
        rewritten t around source.root)) ∧
    ∀ s ∈ source.statements, patchedText? source patch s =
      some (String.ofList (rewritten t (t.resolution.scopeAt source.root around) s)) := by
  intro t around found patch
  obtain ⟨hkind, hboundary, hle, hstop, hplaced⟩ := Source.placed_ofScript? h
  obtain ⟨hgap, htree⟩ := between_script tracked bindings h
  have hforall := announces_outermost (t := t) source.root around
  refine ⟨⟨outermost t around source.root, nodup_outermost _ _, fun _ => mem_outermost, hforall,
    hforall.length_eq.symm, ?_⟩, ?_, fun s hs => ?_⟩
  · rw [size_announce, hforall.length_eq, Patch.size_empty, Nat.zero_add]
  · have hprogram : patch.apply (Text.bytes source.text) source.root.start source.root.stop =
        Text.bytes (rewritten t around source.root) := by
      rw [rewritten_of_eq_nil (notifiedNames_program hkind _)]
      refine apply_eq_rewrittenBetween (t := t) hboundary ?_ hle hplaced htree
      rw [hstop]
      exact Text.boundary_byteLength source.text
    rw [Patch.text?, ← Text.decode?_bytes, ← hstop, patch.apply_append _ (Nat.zero_le _) hle,
      hprogram, Patch.apply_of_between_eq_nil _ hgap,
      bytesBetween_bytes (Text.boundary_zero _) hboundary (Nat.zero_le _), Text.bytes_append]
  · rw [patchedText?, Patch.text?, ← Text.decode?_bytes]
    exact congrArg Text.decode? (apply_eq_rewritten (t := t)
      (hplaced.placed_of_mem hs) (between_of_mem hplaced htree hs))

/-- Statements with nothing between them, and a mutation inside another one. -/
theorem announce_script_eq_rewritten_adjacent :
    ∃ source, Source.ofScript? "let a, b;\x7ba=1\x7db=a++".toList 0 = some source ∧
      let t := Tracking.ofScript source ["a", "b"] [("a", 1), ("b", 0)]
      let around := t.resolution.root
      let found := announcements t around source.root
      let patch := announce .empty found
      (∃ paths : List (List Nat), paths.Nodup ∧
        (∀ path, path ∈ paths ↔ t.OutermostAt around source.root path) ∧
        List.Forall₂ (fun path a => ∃ s, scopedAt? t.resolution around source.root path = some s ∧
          t.Announces s a) paths found ∧
        found.length = paths.length ∧ patch.size = 2 * paths.length) ∧
      patch.text? (Text.bytes source.text) 0 (Text.byteLength source.text) =
        some (String.ofList (Text.byteSlice source.text 0 source.root.start ++
          rewritten t around source.root)) ∧
      ∀ s ∈ source.statements, patchedText? source patch s =
        some (String.ofList (rewritten t (t.resolution.scopeAt source.root around) s)) := by
  have hparsed : (Source.ofScript? "let a, b;\x7ba=1\x7db=a++".toList 0).isSome = true := by
    decide +kernel
  obtain ⟨source, hsource⟩ := Option.isSome_iff_exists.1 hparsed
  exact ⟨source, hsource, announce_script_eq_rewritten _ _ hsource⟩

end Scripts

end ReactiveTemplate
