/-
**A logic for what parsers read.**

The rules of the script's grammar are short programs that move a cursor and put nodes together.  To
say where the nodes lie, each rule is followed with a *passage*: the cursor it started at, the cursor
it has come to, and the nodes it has read in between, which lie there one after the other.  A rule's
contract says what passage it makes; the contracts of the parts of a rule add up to its own.

Main definitions:

* `ReactiveTemplate.Script.Ensures` — what holds whenever a parser succeeds;
* `ReactiveTemplate.Script.Passage` — the nodes read between two cursors;
* `ReactiveTemplate.Script.Looks`, `ReactiveTemplate.Script.Moves`, `ReactiveTemplate.Script.Takes`,
  `ReactiveTemplate.Script.Reads`, `ReactiveTemplate.Script.ReadsAll` — contracts: a parser that stays
  where it is, goes on, takes something, reads a node, or reads nodes.

Main results:

* `ReactiveTemplate.Script.Passage.append` — passages add up;
* `ReactiveTemplate.Script.nodeFrom_reads` — the node made of a passage lies where the passage does;
* `ReactiveTemplate.Script.repeatUntil_reads`, `ReactiveTemplate.Script.iterate_reads` — repetition.
-/

import ReactiveTemplate.Proofs.Extents.Cursor

set_option relaxedAutoImplicit false
set_option autoImplicit false

namespace ReactiveTemplate.Script

open Node

variable {α β : Type} {text : List Char} {place : Place} {c s : Cursor}

/-! ### What holds when a parser succeeds -/

/-- Whenever the parser succeeds at the cursor, its result and the cursor behind satisfy `Q`. -/
def Ensures (p : Parser α) (place : Place) (c : Cursor) (Q : α → Cursor → Prop) : Prop :=
  ∀ a c', p place c = some (a, c') → Q a c'

namespace Ensures

variable {p q : Parser α} {Q : α → Cursor → Prop}

theorem mono {Q' : α → Cursor → Prop} (h : Ensures p place c Q') (hQ : ∀ a c', Q' a c' → Q a c') :
    Ensures p place c Q :=
  fun a c' hp => hQ a c' (h a c' hp)

theorem pure {a : α} (h : Q a c) : Ensures (Pure.pure a) place c Q := by
  rintro _ _ ⟨⟩
  exact h

theorem failure : Ensures Alternative.failure place c Q := by
  rintro _ _ ⟨⟩

theorem bind {f : α → Parser β} {R : β → Cursor → Prop}
    (h : Ensures p place c fun a c' => Ensures (f a) place c' R) :
    Ensures (p >>= f) place c R := by
  intro b c₂ hb
  obtain ⟨⟨a, c₁⟩, ha, hf⟩ := Option.bind_eq_some_iff.1 hb
  exact h a c₁ ha b c₂ hf

theorem step {f : α → Parser β} {R : β → Cursor → Prop} (h : Ensures p place c Q)
    (hf : ∀ a c', Q a c' → Ensures (f a) place c' R) : Ensures (p >>= f) place c R :=
  .bind (h.mono hf)

theorem orElse (hp : Ensures p place c Q) (hq : Ensures q place c Q) :
    Ensures (p <|> q) place c Q := by
  intro a c' h
  change (p place c).orElse (fun _ => q place c) = some (a, c') at h
  cases hpc : p place c with
  | none =>
      rw [hpc] at h
      exact hq a c' h
  | some r =>
      rw [hpc] at h
      exact hp a c' (hpc.trans h)

end Ensures

/-! ### Passages -/

/-- From the cursor `s` on, the nodes `ns` were read up to the cursor `c`, one after the other.  When
`took`, the passage holds at least one byte. -/
structure Passage (text : List Char) (s : Cursor) (took : Bool) (ns : List Node) (c : Cursor) :
    Prop where
  origin : s.In text
  onward : s.Onward text c
  placed : PlacedIn text s.pos c.stop ns
  lt_of_took : took = true → s.pos < c.stop

namespace Passage

variable {d : Cursor} {t t' : Bool} {n : Node} {ns ms cs : List Node} {kind : Kind} {role : Role}

/-- The passage that has just begun. -/
theorem refl (hs : s.In text) : Passage text s false [] s :=
  ⟨hs, hs.refl, placedIn_nil _ _, by simp⟩

theorem mem (h : Passage text s t ns c) : c.In text := h.onward.mem

/-- That something was taken may be forgotten. -/
theorem forget (h : Passage text s t ns c) : Passage text s false ns c :=
  ⟨h.origin, h.onward, h.placed, by simp⟩

/-- Passages add up. -/
theorem append (h : Passage text s t ns c) (h' : Passage text c t' ms d) :
    Passage text s (t || t') (ns ++ ms) d where
  origin := h.origin
  onward := h.onward.trans h'.onward
  placed := h.placed.append h'.placed h.onward.pos_le h.mem.stop_le_pos h'.onward.stop_le
  lt_of_took := by
    intro ht
    have h₁ := h.onward.pos_le
    have h₂ := h'.onward.stop_le
    rcases Bool.or_eq_true_iff.1 ht with ht | ht
    · exact Nat.lt_of_lt_of_le (h.lt_of_took ht) h₂
    · exact Nat.lt_of_le_of_lt h₁ (h'.lt_of_took ht)

/-- Roles do not matter for where nodes lie. -/
theorem congr (h : Passage text s t ns c) (hcs : cs.map (withRole .plain) = ns.map (withRole .plain)) :
    Passage text s t cs c := by
  refine ⟨h.origin, h.onward, ?_, h.lt_of_took⟩
  have hns : PlacedIn text s.pos c.stop (ns.map (withRole .plain)) := placedIn_map_withRole.2 h.placed
  rw [← hcs] at hns
  exact placedIn_map_withRole.1 hns

/-- A passage with a node holds the node's bytes. -/
theorem took (h : Passage text s t (n :: ns) c) : Passage text s true (n :: ns) c := by
  refine ⟨h.origin, h.onward, h.placed, fun _ => ?_⟩
  obtain ⟨hstart, hn, hstop, -⟩ := placedIn_cons.1 h.placed
  have := hn.start_lt_stop
  omega

/-- The node that holds a whole passage lies where the passage does. -/
theorem node (h : Passage text s true ns c)
    (hcs : cs.map (withRole .plain) = ns.map (withRole .plain)) :
    Passage text s true [.mk kind role s.pos c.stop 0 cs] c := by
  have hlt := h.lt_of_took rfl
  have hnode : (Node.mk kind role s.pos c.stop 0 cs).Placed text :=
    placed_iff.2 ⟨h.origin.boundary_pos, h.mem.boundary_stop, hlt, (h.congr hcs).placed⟩
  exact ⟨h.origin, h.onward, placedIn_singleton.2 ⟨Nat.le_refl _, hnode, Nat.le_refl _⟩, fun _ => hlt⟩

/-- The node that holds a passage from its first node on. -/
theorem nodeFromFirst (h : Passage text s t (n :: ns) c)
    (hcs : cs.map (withRole .plain) = (n :: ns).map (withRole .plain)) :
    Passage text s true [.mk kind role n.start c.stop 0 cs] c := by
  obtain ⟨hstart, hn, hstop, hns⟩ := placedIn_cons.1 h.placed
  have hlt : n.start < c.stop := Nat.lt_of_lt_of_le hn.start_lt_stop hstop
  have hall : PlacedIn text n.start c.stop (cs.map (withRole .plain)) := by
    rw [hcs]
    exact placedIn_map_withRole.2 (.cons hn (Nat.le_refl _) hstop hns)
  have hnode : (Node.mk kind role n.start c.stop 0 cs).Placed text :=
    placed_iff.2 ⟨hn.boundary_start, h.mem.boundary_stop, hlt, placedIn_map_withRole.1 hall⟩
  exact ⟨h.origin, h.onward, placedIn_singleton.2 ⟨hstart, hnode, Nat.le_refl _⟩,
    fun _ => Nat.lt_of_le_of_lt hstart hlt⟩

end Passage

@[simp] theorem withRole_withRole (r r' : Role) (n : Node) :
    (n.withRole r).withRole r' = n.withRole r' := by
  cases n
  rfl

@[simp] theorem withRole_comp_withRole (r r' : Role) : withRole r' ∘ withRole r = withRole r' :=
  funext (withRole_withRole r r')

/-! ### Contracts -/

/-- The parser stays where it is. -/
def Looks (p : Parser α) : Prop :=
  ∀ place c, Ensures p place c fun _ c' => c' = c

/-- The parser goes on, and reads no node. -/
def Moves (text : List Char) (p : Parser α) : Prop :=
  ∀ place c, c.In text → Ensures p place c fun _ c' => Passage text c false [] c'

/-- The parser takes at least one byte, and reads no node. -/
def Takes (text : List Char) (p : Parser α) : Prop :=
  ∀ place c, c.In text → Ensures p place c fun _ c' => Passage text c true [] c'

/-- The parser reads a node. -/
def Reads (text : List Char) (p : Parser Node) : Prop :=
  ∀ place c, c.In text → Ensures p place c fun n c' => Passage text c true [n] c'

/-- The parser reads the nodes in its result, and at least one byte if `took`. -/
def ReadsAll (text : List Char) (took : Bool) (parts : α → List Node) (p : Parser α) : Prop :=
  ∀ place c, c.In text → Ensures p place c fun a c' => Passage text c took (parts a) c'

section Steps

variable {p : Parser α} {f : α → Parser β} {Q : β → Cursor → Prop} {t t' : Bool} {ns : List Node}

theorem Looks.step (hp : Looks p) (hf : ∀ a, Ensures (f a) place c Q) :
    Ensures (p >>= f) place c Q :=
  (hp place c).step fun a _ hc => hc ▸ hf a

theorem Moves.step (hp : Moves text p) (h : Passage text s t ns c)
    (hf : ∀ a c', Passage text s t ns c' → Ensures (f a) place c' Q) :
    Ensures (p >>= f) place c Q :=
  (hp place c h.mem).step fun a c' h' => hf a c' (by simpa using h.append h')

theorem Takes.step (hp : Takes text p) (h : Passage text s t ns c)
    (hf : ∀ a c', Passage text s true ns c' → Ensures (f a) place c' Q) :
    Ensures (p >>= f) place c Q :=
  (hp place c h.mem).step fun a c' h' => hf a c' (by simpa using h.append h')

theorem Reads.step {p : Parser Node} {f : Node → Parser β} (hp : Reads text p)
    (h : Passage text s t ns c)
    (hf : ∀ n c', Passage text s true (ns ++ [n]) c' → Ensures (f n) place c' Q) :
    Ensures (p >>= f) place c Q :=
  (hp place c h.mem).step fun n c' h' => hf n c' (by simpa using h.append h')

theorem ReadsAll.step {parts : α → List Node} (hp : ReadsAll text t' parts p)
    (h : Passage text s t ns c)
    (hf : ∀ a c', Passage text s (t || t') (ns ++ parts a) c' → Ensures (f a) place c' Q) :
    Ensures (p >>= f) place c Q :=
  (hp place c h.mem).step fun a c' h' => hf a c' (h.append h')

/-- A rule may end with another one. -/
theorem Reads.last {p : Parser Node} (hp : Reads text p) (h : Passage text s t [] c) :
    Ensures p place c fun n c' => Passage text s true [n] c' :=
  (hp place c h.mem).mono fun n c' h' => by simpa using h.append h'

theorem Reads.within {p : Parser Node} (hp : Reads text p) (place : Place) :
    Reads text (Script.within place p) :=
  fun _ => hp place

theorem ReadsAll.within {parts : α → List Node} (hp : ReadsAll text t parts p) (place : Place) :
    ReadsAll text t parts (Script.within place p) :=
  fun _ => hp place

theorem Looks.within (hp : Looks p) (place : Place) : Looks (Script.within place p) :=
  fun _ => hp place

theorem Reads.orElse {p q : Parser Node} (hp : Reads text p) (hq : Reads text q) :
    Reads text (p <|> q) :=
  fun place c hc => .orElse (hp place c hc) (hq place c hc)

theorem Reads.readsAll {p : Parser Node} (hp : Reads text p) : ReadsAll text true (fun n => [n]) p :=
  hp

end Steps

/-! ### Single tokens -/

section Tokens

variable {f : Unit → Parser β} {Q : β → Cursor → Prop} {t : Bool} {ns : List Node}

theorem get_step {f : Cursor → Parser β} (hf : Ensures (f c) place c Q) :
    Ensures (get >>= f) place c Q :=
  .bind (by rintro _ _ ⟨⟩; exact hf)

theorem modify_step {m : Cursor → Cursor} (hf : Ensures (f ()) place (m c) Q) :
    Ensures (modify m >>= f) place c Q :=
  .bind (by rintro _ _ ⟨⟩; exact hf)

theorem here_step {f : Nat → Parser β} (hf : Ensures (f c.pos) place c Q) :
    Ensures (here >>= f) place c Q :=
  .bind (by rintro _ _ ⟨⟩; exact hf)

/-- Looking at the next token: if it is not the end, a character is left. -/
theorem peek_step {f : Token → Parser β}
    (hf : ∀ token, (token ≠ .finish → c.rest ≠ []) → Ensures (f token) place c Q) :
    Ensures (peek >>= f) place c Q :=
  .bind (by rintro _ _ ⟨⟩; exact hf _ Token.ne_nil)

/-- Looking at the token behind the next one: there is none behind the end. -/
theorem peekSecond_step {f : Token → Parser β}
    (hf : ∀ token, (token ≠ .finish → c.rest ≠ []) → Ensures (f token) place c Q) :
    Ensures (peekSecond >>= f) place c Q := by
  refine .bind ?_
  rintro _ _ ⟨⟩
  refine hf _ fun hsecond hnil => hsecond ?_
  -- with no character left, taking the end stays at the end
  simp only [Cursor.take, Cursor.takeRaw, Cursor.settle, hnil, List.drop_nil]
  rfl

theorem require_step {b : Bool} (hf : b = true → Ensures (f ()) place c Q) :
    Ensures (require b >>= f) place c Q := by
  cases b with
  | false => exact .bind .failure
  | true => exact .bind (.pure (hf rfl))

theorem peek_looks : Looks peek := by
  rintro _ _ _ _ ⟨⟩
  rfl

theorem peekSecond_looks : Looks peekSecond := by
  rintro _ _ _ _ ⟨⟩
  rfl

theorem newlineAhead_looks : Looks newlineAhead := by
  rintro _ _ _ _ ⟨⟩
  rfl

theorem newlineBehindNext_looks : Looks newlineBehindNext := by
  rintro _ _ _ _ ⟨⟩
  rfl

theorem atStatementEnd_looks (operator : Bool) : Looks (atStatementEnd operator) := by
  rintro _ _ _ _ ⟨⟩
  rfl

theorem endsBehindNext_looks : Looks endsBehindNext := by
  rintro _ _ _ _ ⟨⟩
  rfl

theorem read_looks : Looks (read : Parser Place) := by
  rintro _ _ _ _ ⟨⟩
  rfl

theorem atPunctuator_looks (w : String) : Looks (atPunctuator w) := by
  rintro _ _ _ _ ⟨⟩
  rfl

theorem atWord_looks (w : String) : Looks (atWord w) := by
  rintro _ _ _ _ ⟨⟩
  rfl

theorem atLineStart_looks : Looks atLineStart := by
  intro place c
  refine peek_step fun token _ => ?_
  split
  · exact .pure rfl
  · exact .pure rfl
  · exact newlineAhead_looks place c

theorem require_looks (b : Bool) : Looks (require b) := by
  intro place c
  cases b with
  | false => exact .failure
  | true => exact .pure rfl

/-- Moving past the next token takes it, if a character is left. -/
theorem advance_takes (hc : c.In text) (hne : c.rest ≠ []) :
    Ensures advance place c fun _ c' => Passage text c true [] c' := by
  rintro _ _ ⟨⟩
  have hlt := Cursor.pos_lt_stop_take (Token.length_ne_zero hne) hne
  exact ⟨hc, hc.take _, placedIn_nil _ _, fun _ => hlt⟩

theorem advance_moves : Moves text advance := by
  rintro _ c hc _ _ ⟨⟩
  exact ⟨hc, hc.take _, placedIn_nil _ _, by simp⟩

/-- Moving past the next token in a rule that has just looked at it. -/
theorem advance_step (h : Passage text s t ns c) (hne : c.rest ≠ [])
    (hf : ∀ c', Passage text s true ns c' → Ensures (f ()) place c' Q) :
    Ensures (advance >>= f) place c Q :=
  (advance_takes h.mem hne).step fun _ c' h' => hf c' (by simpa using h.append h')

theorem punctuator_takes (w : String) : Takes text (punctuator w) := by
  intro place c hc
  refine .bind ?_
  rintro _ _ ⟨⟩
  exact require_step fun htoken => advance_takes hc (Token.ne_nil_of_beq htoken nofun)

theorem keyword_takes (w : String) : Takes text (keyword w) := by
  intro place c hc
  refine .bind ?_
  rintro _ _ ⟨⟩
  exact require_step fun htoken => advance_takes hc (Token.ne_nil_of_beq htoken nofun)

/-- A punctuator that may stand next is taken, or nothing is. -/
theorem tryPunctuator_step {f : Bool → Parser β} {w : String} (h : Passage text s t ns c)
    (hyes : ∀ c', Passage text s true ns c' → Ensures (f true) place c' Q)
    (hno : Ensures (f false) place c Q) : Ensures (tryPunctuator w >>= f) place c Q := by
  refine .bind (.bind ?_)
  rintro _ _ ⟨⟩
  split
  · next htoken =>
      exact advance_step h (Token.ne_nil_of_beq htoken nofun) fun c' h' => .pure (hyes c' h')
  · exact .pure hno

/-- A word that may stand next is taken, or nothing is. -/
theorem tryKeyword_step {f : Bool → Parser β} {w : String} (h : Passage text s t ns c)
    (hyes : ∀ c', Passage text s true ns c' → Ensures (f true) place c' Q)
    (hno : Ensures (f false) place c Q) : Ensures (tryKeyword w >>= f) place c Q := by
  refine .bind (.bind ?_)
  rintro _ _ ⟨⟩
  split
  · next htoken =>
      exact advance_step h (Token.ne_nil_of_beq htoken nofun) fun c' h' => .pure (hyes c' h')
  · exact .pure hno

theorem semicolon_moves (operator : Bool) : Moves text (semicolon operator) := by
  intro place c hc
  refine (atStatementEnd_looks operator).step fun b => ?_
  split
  · refine tryPunctuator_step (.refl hc) (fun c' h => ?_) ?_
    · exact .pure h.forget
    · refine atLineStart_looks.step fun b' => ?_
      exact (require_looks b' place c).mono (by rintro _ _ rfl; exact .refl hc)
  · exact .pure (.refl hc)

end Tokens

/-! ### Nodes -/

section Nodes

variable {kind : Kind} {t : Bool} {n : Node} {ns cs : List Node}

/-- The node made of a passage. -/
theorem nodeFrom_reads (h : Passage text s true ns c)
    (hcs : cs.map (withRole .plain) = ns.map (withRole .plain)) :
    Ensures (nodeFrom kind s.pos cs) place c fun n c' => Passage text s true [n] c' := by
  rintro _ _ ⟨⟩
  exact h.node hcs

/-- The node made of a passage from its first node on. -/
theorem nodeFromFirst_reads (h : Passage text s t (n :: ns) c)
    (hcs : cs.map (withRole .plain) = (n :: ns).map (withRole .plain)) :
    Ensures (nodeFrom kind n.start cs) place c fun m c' => Passage text s true [m] c' := by
  rintro _ _ ⟨⟩
  exact h.nodeFromFirst hcs

/-- A leaf made of a token that a rule has looked at. -/
theorem leaf_reads (hc : c.In text) (hne : c.rest ≠ []) :
    Ensures (leaf kind) place c fun n c' => Passage text c true [n] c' :=
  here_step (advance_step (.refl hc) hne fun _ h => nodeFrom_reads h rfl)

theorem nameLeaf_reads (kind : Kind) : Reads text (nameLeaf kind) := by
  intro place c hc
  refine peek_step fun token htoken => ?_
  split
  · exact require_step fun _ => leaf_reads hc (htoken nofun)
  · exact .failure

theorem identifier_reads : Reads text identifier := nameLeaf_reads _

/-- The other role of a node that was read. -/
theorem Reads.withRole {p : Parser Node} (hp : Reads text p) (role : Role) :
    Reads text (return (← p).withRole role) := by
  intro place c hc
  refine hp.step (.refl hc) fun n c' h => .pure (h.congr (by simp))

end Nodes

/-! ### Parts that may be left out -/

section Optional

variable {Q : β → Cursor → Prop} {t : Bool} {ns : List Node} {b : Bool}

/-- A move that is made under a condition. -/
theorem optionalMove_step {p : Parser Unit} {f : Unit → Parser β} (hp : Moves text p)
    (h : Passage text s t ns c) (hf : ∀ c', Passage text s t ns c' → Ensures (f ()) place c' Q) :
    Ensures (if b then p >>= f else f ()) place c Q := by
  split
  · exact hp.step h fun _ => hf
  · exact hf c h

/-- A node that is read under a condition. -/
theorem optionalNode_step {p : Parser Node} {f : List Node → Parser β} {g : Node → Node}
    (hp : Reads text p) (hg : ∀ n, (g n).withRole .plain = n.withRole .plain)
    (h : Passage text s t ns c)
    (hf : ∀ ms c', Passage text s t (ns ++ ms) c' → Ensures (f ms) place c' Q) :
    Ensures (if b then p >>= fun n => pure [g n] >>= f else pure [] >>= f) place c Q := by
  split
  · refine (hp place c h.mem).step fun n c' h' => .bind (.pure (hf _ c' ?_))
    have hrole : Passage text c false [g n] c' := h'.forget.congr (by simp [hg])
    simpa using h.append hrole
  · exact .bind (.pure (hf _ c (by simpa using h)))

end Optional

/-! ### Repetition -/

section Repetition

variable {done : Parser Bool} {t : Bool}

theorem repeatAtMost_reads {p : Parser α} {parts : α → List Node} (hdone : Looks done)
    (hp : ReadsAll text t parts p) (n : Nat) :
    ReadsAll text false (fun xs => xs.flatMap parts) (repeatAtMost done p n) := by
  induction n with
  | zero => exact fun _ _ _ => .failure
  | succ n ih =>
      intro place c hc
      refine hdone.step fun b => ?_
      split
      · exact .pure (.refl hc)
      · -- the passage of the first round goes on with that of the others
        refine hp.step (.refl hc) fun x c₁ h₁ => ih.step h₁ fun xs c₂ h₂ => .pure ?_
        simpa using h₂.forget

/-- What a repeated parser reads in all its rounds. -/
theorem repeatUntil_reads {p : Parser α} {parts : α → List Node} (hdone : Looks done)
    (hp : ReadsAll text t parts p) :
    ReadsAll text false (fun xs => xs.flatMap parts) (repeatUntil done p) :=
  fun place c hc => get_step (repeatAtMost_reads hdone hp _ place c hc)

/-- Nodes that a repeated parser reads. -/
theorem repeatUntil_reads_nodes {p : Parser Node} (hdone : Looks done) (hp : Reads text p) :
    ReadsAll text false (fun ns => ns) (repeatUntil done p) :=
  fun place c hc =>
    (repeatUntil_reads hdone hp.readsAll place c hc).mono fun _ _ h => by simpa using h

theorem iterateAtMost_reads {step : α → Parser (Option α)} {node : α → Node}
    (hstep : ∀ {place c x}, Passage text s true [node x] c →
      Ensures (step x) place c fun y c' => Passage text s true [node (y.getD x)] c') (n : Nat) :
    ∀ {c x}, Passage text s true [node x] c →
      Ensures (iterateAtMost step n x) place c fun y c' => Passage text s true [node y] c' := by
  induction n with
  | zero => exact fun h => .pure h
  | succ n ih =>
      intro c x h
      refine (hstep h).step fun y c' h' => ?_
      cases y with
      | none => exact .pure h'
      | some y => exact ih h'

/-- A node that is extended step by step stays the only node of its passage. -/
theorem iterate_reads {step : α → Parser (Option α)} {x : α} (node : α → Node)
    (hstep : ∀ {place c x}, Passage text s true [node x] c →
      Ensures (step x) place c fun y c' => Passage text s true [node (y.getD x)] c')
    (h : Passage text s true [node x] c) :
    Ensures (iterate step x) place c fun y c' => Passage text s true [node y] c' :=
  get_step (iterateAtMost_reads hstep _ h)

/-- The parts before a closing punctuator. -/
theorem separatedItems_reads {close : String} {p : Parser Node} (hp : Reads text p) :
    ReadsAll text false (fun ns => ns) (repeatUntil (atPunctuator close) do
      let x ← p
      if ← atPunctuator close then
        return x
      else
        punctuator ","
        return x) := by
  refine repeatUntil_reads_nodes (atPunctuator_looks close) fun place c hc => ?_
  refine hp.step (.refl hc) fun n c₁ h => (atPunctuator_looks close).step fun b => ?_
  split
  · exact .pure h
  · exact (punctuator_takes ",").step h fun _ c₂ h => .pure h

theorem separated_reads {close : String} {p : Parser Node} (hp : Reads text p) :
    ReadsAll text true (fun ns => ns) (separated close p) := by
  intro place c hc
  refine (separatedItems_reads hp).step (.refl hc) fun ns c₁ h => ?_
  exact (punctuator_takes close).step h fun _ c₂ h => .pure h

/-- The parts before a closing punctuator, some of them left out. -/
theorem separatedRounds_reads {close : String} {p : Parser Node} (hp : Reads text p) :
    ReadsAll text false (fun rounds => rounds.flatMap fun ns => ns)
      (repeatUntil (atPunctuator close) do
        if ← tryPunctuator "," then
          return []
        else
          let x ← p
          if ← atPunctuator close then
            return [x]
          else
            punctuator ","
            return [x]) := by
  have hround : ReadsAll text false (fun ns => ns) (do
      if ← tryPunctuator "," then
        return []
      else
        let x ← p
        if ← atPunctuator close then
          return [x]
        else
          punctuator ","
          return [x]) := by
    intro place c hc
    refine tryPunctuator_step (.refl hc) (fun c₁ h => ?_) ?_
    · exact .pure h.forget
    · refine hp.step (.refl hc) fun n c₁ h => (atPunctuator_looks close).step fun b => ?_
      split
      · exact .pure h.forget
      · exact (punctuator_takes ",").step h fun _ c₂ h => .pure h.forget
  exact repeatUntil_reads (atPunctuator_looks close) hround

theorem separatedWithHoles_reads {close : String} {p : Parser Node} (hp : Reads text p) :
    ReadsAll text true (fun ns => ns) (separatedWithHoles close p) := by
  intro place c hc
  refine (separatedRounds_reads hp).step (.refl hc) fun rounds c₁ h => ?_
  refine (punctuator_takes close).step h fun _ c₂ h => .pure ?_
  simpa [List.flatMap_id'] using h

end Repetition

end ReactiveTemplate.Script
