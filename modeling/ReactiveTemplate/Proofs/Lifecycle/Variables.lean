/-
**The code of markup, and the variables in it.**

The code of a piece of markup is put together from the code of its parts.  This module says what the code of
each kind of piece consists of, and which variables it has.  A variable ends in a running number, and each
piece takes the numbers that follow those taken before it, so no two pieces have a variable in common.

Main definitions:

* `ReactiveTemplate.Numbered`, `ReactiveTemplate.NumberedIn` — variables that end in a number, and in a
  number of a range.

Main results:

* `ReactiveTemplate.Numbered.unique` — a variable ends in one number;
* `ReactiveTemplate.eventCode_eq_ok`, `ReactiveTemplate.fragmentCode_element`, … — what code consists of;
* `ReactiveTemplate.numberedIn_fragmentsCode` — the variables of the code of fragments.
-/

import ReactiveTemplate.Generation.Markup
import ReactiveTemplate.Proofs.ReactivePass

set_option relaxedAutoImplicit false
set_option autoImplicit false

namespace ReactiveTemplate

open Script

/-! ### Variables -/

/-- A variable that ends in a number. -/
def Numbered (k : Int) (v : String) : Prop :=
  ∃ stem, v = stem ++ "_" ++ toString k

/-- A part of a text behind its last underscore. -/
theorem eq_of_append_underscore {a b s t : List Char} (hs : '_' ∉ s) (ht : '_' ∉ t)
    (h : a ++ '_' :: s = b ++ '_' :: t) : s = t := by
  rcases List.append_eq_append_iff.1 h with ⟨u, rfl, hu⟩ | ⟨u, rfl, hu⟩
  · cases u with
    | nil => exact (List.cons.inj hu).2
    | cons c u =>
        obtain ⟨-, rfl⟩ := List.cons.inj hu
        exact absurd (List.mem_append_right u List.mem_cons_self) hs
  · cases u with
    | nil => exact (List.cons.inj hu).2.symm
    | cons c u =>
        obtain ⟨-, rfl⟩ := List.cons.inj hu
        exact absurd (List.mem_append_right u List.mem_cons_self) ht

theorem isDigit_of_mem_repr {n : Nat} {c : Char} (h : c ∈ n.repr.toList) : c.isDigit = true := by
  rw [Nat.repr_eq_ofList_toDigits, String.toList_ofList] at h
  exact Nat.isDigit_of_mem_toDigits (by decide) (by decide) h

theorem eq_of_repr_eq {m n : Nat} (h : m.repr = n.repr) : m = n := by
  rw [Nat.repr_eq_ofList_toDigits, Nat.repr_eq_ofList_toDigits] at h
  have hdigits := congrArg (Nat.ofDigitChars 10 · 0) (String.ofList_injective h)
  simpa using hdigits

theorem toString_negSucc (n : Nat) : (toString (Int.negSucc n)).toList = '-' :: (n + 1).repr.toList :=
  String.toList_append

theorem underscore_not_mem_toString (k : Int) : '_' ∉ (toString k).toList := by
  intro hmem
  cases k with
  | ofNat n => exact absurd (isDigit_of_mem_repr hmem) (by decide)
  | negSucc n =>
      rw [toString_negSucc] at hmem
      rcases List.mem_cons.1 hmem with hmem | hmem
      · exact absurd hmem (by decide)
      · exact absurd (isDigit_of_mem_repr hmem) (by decide)

/-- Numbers are written differently. -/
theorem eq_of_toString_eq {j k : Int} (h : (toString j).toList = (toString k).toList) : j = k := by
  -- a number with a sign is not written like one without
  have hsign : ∀ m n : Nat, (toString (Int.ofNat m)).toList ≠ (toString (Int.negSucc n)).toList := by
    intro m n heq
    have hmem : '-' ∈ m.repr.toList := by
      rw [toString_negSucc] at heq
      exact heq ▸ List.mem_cons_self
    exact absurd (isDigit_of_mem_repr hmem) (by decide)
  cases j with
  | ofNat m =>
      cases k with
      | ofNat n => rw [eq_of_repr_eq (String.toList_injective h)]
      | negSucc n => exact absurd h (hsign m n)
  | negSucc m =>
      cases k with
      | ofNat n => exact absurd h.symm (hsign n m)
      | negSucc n =>
          rw [toString_negSucc, toString_negSucc] at h
          have hsucc := eq_of_repr_eq (String.toList_injective (List.cons.inj h).2)
          rw [Nat.succ.inj hsucc]

/-- A variable ends in one number. -/
theorem Numbered.unique {j k : Int} {v : String} (hj : Numbered j v) (hk : Numbered k v) : j = k := by
  obtain ⟨a, rfl⟩ := hj
  obtain ⟨b, h⟩ := hk
  have hlist := congrArg String.toList h
  simp only [String.toList_append, List.append_assoc] at hlist
  exact eq_of_toString_eq (eq_of_append_underscore (underscore_not_mem_toString j)
    (underscore_not_mem_toString k) hlist)

/-- Variables that end in numbers of a range. -/
def NumberedIn (lo hi : Int) (vs : List String) : Prop :=
  ∀ v ∈ vs, ∃ k, lo ≤ k ∧ k < hi ∧ Numbered k v

theorem NumberedIn.not_mem {lo hi k : Int} {vs : List String} {v : String} (h : NumberedIn lo hi vs)
    (hv : Numbered k v) (hk : k < lo ∨ hi ≤ k) : v ∉ vs := by
  intro hmem
  obtain ⟨j, hlo, hhi, hj⟩ := h v hmem
  have := hv.unique hj
  omega

theorem NumberedIn.append {lo mid hi : Int} {vs ws : List String} (h : NumberedIn lo mid vs)
    (h' : NumberedIn mid hi ws) (hlo : lo ≤ mid) (hhi : mid ≤ hi) : NumberedIn lo hi (vs ++ ws) := by
  intro v hv
  rcases List.mem_append.1 hv with hv | hv
  · obtain ⟨k, hk, hk', hnumbered⟩ := h v hv
    exact ⟨k, hk, by omega, hnumbered⟩
  · obtain ⟨k, hk, hk', hnumbered⟩ := h' v hv
    exact ⟨k, by omega, hk', hnumbered⟩

theorem NumberedIn.disjoint {lo mid hi : Int} {vs ws : List String} (h : NumberedIn lo mid vs)
    (h' : NumberedIn mid hi ws) : ∀ v ∈ vs, v ∉ ws := by
  intro v hv
  obtain ⟨k, -, hk, hnumbered⟩ := h v hv
  exact h'.not_mem hnumbered (.inl hk)

theorem numbered_fresh (names : NameCounter) (stem : String) :
    Numbered names.next (names.fresh stem).1 :=
  ⟨stem, rfl⟩

/-! ### Code -/

@[simp] theorem MarkupCode.locals_append (a b : MarkupCode) : (a ++ b).locals = a.locals ++ b.locals := rfl

@[simp] theorem MarkupCode.create_append (a b : MarkupCode) : (a ++ b).create = a.create ++ b.create := rfl

@[simp] theorem MarkupCode.destroy_append (a b : MarkupCode) : (a ++ b).destroy = a.destroy ++ b.destroy :=
  rfl

variable {c : MarkupContext} {holder : String} {names names' : NameCounter} {code : MarkupCode}

/-- A handler that is a plain name is used as it is; any other one is kept in a fresh variable. -/
theorem eventCode_eq_ok {event : String} {e : Embedded}
    (h : eventCode c holder event e names = .ok (code, names')) :
    (∃ handler, plainName? e.toSource e.node = some handler ∧ names' = names ∧
        code = listenerCode holder event handler) ∨
      (plainName? e.toSource e.node = none ∧ ∃ text handler, handlerText c e = .ok text ∧
        Numbered names.next handler ∧ names' = ⟨names.next + 1⟩ ∧
        code = (⟨[handler], [.keepHandler handler (operandText e.node.kind text)], [], []⟩ : MarkupCode) ++
          listenerCode holder event handler) := by
  unfold eventCode at h
  split at h
  · next handler hplain =>
      cases h
      exact .inl ⟨handler, hplain, rfl, rfl⟩
  · next hplain =>
      obtain ⟨text, htext, h⟩ := exists_of_bind_eq_ok h
      cases h
      exact .inr ⟨hplain, text, _, htext, numbered_fresh _ _, rfl, rfl⟩

theorem numberedIn_eventCode {event : String} {e : Embedded}
    (h : eventCode c holder event e names = .ok (code, names')) :
    names.next ≤ names'.next ∧ NumberedIn names.next names'.next code.locals := by
  rcases eventCode_eq_ok h with ⟨handler, -, rfl, rfl⟩ | ⟨-, text, handler, -, hnumbered, rfl, rfl⟩
  · exact ⟨Int.le_refl _, fun v hv => nomatch hv⟩
  · obtain hstep : names.next < names.next + 1 := by omega
    refine ⟨Int.le_of_lt hstep, fun v hv => ?_⟩
    obtain rfl : v = handler := by simpa [listenerCode] using hv
    exact ⟨names.next, Int.le_refl _, hstep, hnumbered⟩

theorem numberedIn_attributeCode {a : Attribute} (h : attributeCode c holder a names = .ok (code, names')) :
    names.next ≤ names'.next ∧ NumberedIn names.next names'.next code.locals := by
  unfold attributeCode at h
  split at h
  · cases h
    exact ⟨Int.le_refl _, fun v hv => nomatch hv⟩
  · split at h
    · exact numberedIn_eventCode h
    · cases h
      exact ⟨Int.le_refl _, fun v hv => nomatch hv⟩

theorem numberedIn_attributesCode {attributes : List Attribute}
    (h : attributesCode c holder attributes names = .ok (code, names')) :
    names.next ≤ names'.next ∧ NumberedIn names.next names'.next code.locals := by
  induction attributes generalizing names code with
  | nil =>
      cases h
      exact ⟨Int.le_refl _, fun v hv => nomatch hv⟩
  | cons a attributes ih =>
      obtain ⟨⟨first, middle⟩, hfirst, h⟩ := exists_of_bind_eq_ok h
      obtain ⟨⟨rest, last⟩, hrest, h⟩ := exists_of_bind_eq_ok h
      cases h
      obtain ⟨hle, hlocals⟩ := numberedIn_attributeCode hfirst
      obtain ⟨hle', hlocals'⟩ := ih hrest
      exact ⟨Int.le_trans hle hle', hlocals.append hlocals' hle hle'⟩

variable {parent : Receiver}

theorem fragmentCode_element {tag : String} {attributes : List Attribute} {children : List Fragment}
    {start : Nat} (h : fragmentCode c parent (.element tag attributes children start) names =
      .ok (code, names')) :
    ∃ holder own middle inner, Numbered names.next holder ∧
      attributesCode c holder attributes ⟨names.next + 1⟩ = .ok (own, middle) ∧
      fragmentsCode c (.element holder) children middle = .ok (inner, names') ∧
      code = elementCode parent holder tag (own ++ inner) := by
  rw [fragmentCode] at h
  obtain ⟨⟨own, middle⟩, hown, h⟩ := exists_of_bind_eq_ok h
  obtain ⟨⟨inner, last⟩, hinner, h⟩ := exists_of_bind_eq_ok h
  cases h
  exact ⟨_, own, middle, inner, numbered_fresh _ _, hown, hinner, rfl⟩

theorem fragmentCode_text {value : String} {start : Nat}
    (h : fragmentCode c parent (.text value start) names = .ok (code, names')) :
    ∃ holder, Numbered names.next holder ∧ names' = ⟨names.next + 1⟩ ∧
      code = textCode parent holder (.literal value) [] := by
  rw [fragmentCode] at h
  cases h
  exact ⟨_, numbered_fresh _ _, rfl, rfl⟩

theorem fragmentCode_expression {e : Embedded} {start : Nat}
    (h : fragmentCode c parent (.expression e start) names = .ok (code, names')) :
    ∃ holder update, Numbered names.next holder ∧ names' = ⟨names.next + 1⟩ ∧
      code = textCode parent holder (.expression e.operand) update := by
  rw [fragmentCode] at h
  cases h
  exact ⟨_, _, numbered_fresh _ _, rfl, rfl⟩

theorem fragmentsCode_cons {f : Fragment} {fs : List Fragment}
    (h : fragmentsCode c parent (f :: fs) names = .ok (code, names')) :
    ∃ first middle rest, fragmentCode c parent f names = .ok (first, middle) ∧
      fragmentsCode c parent fs middle = .ok (rest, names') ∧ code = first ++ rest := by
  rw [fragmentsCode] at h
  obtain ⟨⟨first, middle⟩, hfirst, h⟩ := exists_of_bind_eq_ok h
  obtain ⟨⟨rest, last⟩, hrest, h⟩ := exists_of_bind_eq_ok h
  cases h
  exact ⟨first, middle, rest, hfirst, hrest, rfl⟩

theorem numberedIn_singleton (h : Numbered names.next holder) :
    NumberedIn names.next (names.next + 1) [holder] := by
  intro v hv
  rw [List.mem_singleton.1 hv]
  exact ⟨names.next, Int.le_refl _, by omega, h⟩

mutual

theorem numberedIn_fragmentCode : ∀ {f : Fragment} {parent : Receiver} {names names' : NameCounter}
    {code : MarkupCode}, fragmentCode c parent f names = .ok (code, names') →
    names.next ≤ names'.next ∧ NumberedIn names.next names'.next code.locals
  | .element tag attributes children start, parent, names, names', code, h => by
      obtain ⟨holder, own, middle, inner, hholder, hown, hinner, rfl⟩ := fragmentCode_element h
      obtain ⟨hle, hlocals⟩ := numberedIn_attributesCode hown
      obtain ⟨hle', hlocals'⟩ := numberedIn_fragmentsCode hinner
      have hall := (numberedIn_singleton hholder).append (hlocals.append hlocals' hle hle')
        (by omega) (Int.le_trans hle hle')
      have hlocals : (elementCode parent holder tag (own ++ inner)).locals =
          [holder] ++ (own.locals ++ inner.locals) := by
        simp [elementCode]
      have hlast : names.next + 1 ≤ names'.next := Int.le_trans hle hle'
      exact ⟨by omega, hlocals ▸ hall⟩
  | .text value start, parent, names, names', code, h => by
      obtain ⟨holder, hholder, rfl, rfl⟩ := fragmentCode_text h
      exact ⟨Int.le_of_lt (Int.lt_succ _), numberedIn_singleton hholder⟩
  | .expression e start, parent, names, names', code, h => by
      obtain ⟨holder, update, hholder, rfl, rfl⟩ := fragmentCode_expression h
      exact ⟨Int.le_of_lt (Int.lt_succ _), numberedIn_singleton hholder⟩

theorem numberedIn_fragmentsCode : ∀ {fs : List Fragment} {parent : Receiver} {names names' : NameCounter}
    {code : MarkupCode}, fragmentsCode c parent fs names = .ok (code, names') →
    names.next ≤ names'.next ∧ NumberedIn names.next names'.next code.locals
  | [], parent, names, names', code, h => by
      rw [fragmentsCode] at h
      cases h
      exact ⟨Int.le_refl _, fun v hv => nomatch hv⟩
  | f :: fs, parent, names, names', code, h => by
      obtain ⟨first, middle, rest, hfirst, hrest, rfl⟩ := fragmentsCode_cons h
      obtain ⟨hle, hlocals⟩ := numberedIn_fragmentCode hfirst
      obtain ⟨hle', hlocals'⟩ := numberedIn_fragmentsCode hrest
      exact ⟨Int.le_trans hle hle', hlocals.append hlocals' hle hle'⟩

end

end ReactiveTemplate
