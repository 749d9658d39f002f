import Mathlib.Data.List.Sort

/-!
# Insertion at an anchor

A list into which an element is put at the head, or next to the first element that satisfies a
predicate.

* `filterMap_insertBefore`, `filterMap_insertAfter` — insertion and projection;
* `pairwise_insertBefore` — an element put before the first one that has to follow it keeps a list
  ordered;
* `countP_getElem` — the place of an element of an ordered list is the number of elements before it.
-/

namespace Anchor

open List

variable {α β : Type}

/-- Put `x` before the first element that satisfies `p`, at the end if there is none. -/
def insertBefore (p : α → Bool) (x : α) : List α → List α
  | [] => [x]
  | y :: ys => if p y then x :: y :: ys else y :: insertBefore p x ys

/-- Put `x` after the first element that satisfies `p`, at the end if there is none. -/
def insertAfter (p : α → Bool) (x : α) : List α → List α
  | [] => [x]
  | y :: ys => if p y then y :: x :: ys else y :: insertAfter p x ys

variable {p q : α → Bool} {x y : α} {l : List α}

/-! ## Where the element goes -/

theorem perm_insertBefore (p : α → Bool) (x : α) (l : List α) :
    (insertBefore p x l).Perm (x :: l) := by
  induction l with
  | nil => exact List.Perm.refl _
  | cons y l ih =>
    unfold insertBefore
    split
    · exact List.Perm.refl _
    · exact (ih.cons y).trans (List.Perm.swap x y l)

theorem perm_insertAfter (p : α → Bool) (x : α) (l : List α) :
    (insertAfter p x l).Perm (x :: l) := by
  induction l with
  | nil => exact List.Perm.refl _
  | cons y l ih =>
    unfold insertAfter
    split
    · exact List.Perm.swap x y l
    · exact (ih.cons y).trans (List.Perm.swap x y l)

theorem mem_insertBefore : y ∈ insertBefore p x l ↔ y = x ∨ y ∈ l :=
  (perm_insertBefore p x l).mem_iff.trans mem_cons

theorem insertBefore_of_none (h : l.find? p = none) : insertBefore p x l = l ++ [x] := by
  induction l with
  | nil => rfl
  | cons y l ih =>
    obtain ⟨hy, hl⟩ := forall_mem_cons.1 (find?_eq_none.1 h)
    rw [insertBefore, if_neg hy, ih (find?_eq_none.2 hl)]
    rfl

theorem insertBefore_congr (h : l.find? p = l.find? q) :
    insertBefore p x l = insertBefore q x l := by
  induction l with
  | nil => rfl
  | cons y l ih =>
    rw [find?_cons, find?_cons] at h
    unfold insertBefore
    cases hp : p y with
    | true =>
      -- the first hit of `q` is an element equal to `y`, so it is `y`
      have hq : q y = true := by
        cases hq : q y with
        | true => rfl
        | false =>
          rw [hp, hq] at h
          rw [← hq]
          exact find?_some h.symm
      rw [hq]
      rfl
    | false =>
      have hq : q y = false := by
        cases hq : q y with
        | false => rfl
        | true =>
          rw [hp, hq] at h
          rw [← hp]
          exact (find?_some h).symm
      rw [hp, hq] at h
      rw [hq, ih h]

/-- Put after the only element the predicate holds of, the last one. -/
theorem insertAfter_concat (hl : ∀ z ∈ l, p z = false) (hy : p y = true) :
    insertAfter p x (l ++ [y]) = l ++ [y] ++ [x] := by
  induction l with
  | nil => simp [insertAfter, hy]
  | cons z l ih =>
    obtain ⟨hz, hl⟩ := forall_mem_cons.1 hl
    simp only [cons_append, insertAfter, hz, Bool.false_eq_true, if_false]
    rw [ih hl]

/-! ## Projections -/

section FilterMap

variable {f : α → Option β} {r : β → Bool} {b : β}

theorem filterMap_insertBefore (hx : f x = some b) (hp : ∀ a ∈ l, p a = (f a).any r) :
    (insertBefore p x l).filterMap f = insertBefore r b (l.filterMap f) := by
  induction l with
  | nil => simp [insertBefore, hx]
  | cons a l ih =>
    obtain ⟨ha, hl⟩ := forall_mem_cons.1 hp
    cases hf : f a with
    | none =>
      have hpa : p a = false := by rw [ha, hf]; rfl
      simp [insertBefore, hpa, hf, ih hl]
    | some c =>
      have hpa : p a = r c := by rw [ha, hf]; rfl
      cases hr : r c <;> simp [insertBefore, hpa, hf, hr, hx, ih hl]

theorem filterMap_insertAfter (hx : f x = some b) (hp : ∀ a ∈ l, p a = (f a).any r) :
    (insertAfter p x l).filterMap f = insertAfter r b (l.filterMap f) := by
  induction l with
  | nil => simp [insertAfter, hx]
  | cons a l ih =>
    obtain ⟨ha, hl⟩ := forall_mem_cons.1 hp
    cases hf : f a with
    | none =>
      have hpa : p a = false := by rw [ha, hf]; rfl
      simp [insertAfter, hpa, hf, ih hl]
    | some c =>
      have hpa : p a = r c := by rw [ha, hf]; rfl
      cases hr : r c <;> simp [insertAfter, hpa, hf, hr, hx, ih hl]

theorem filterMap_insertBefore_of_none (hx : f x = none) :
    (insertBefore p x l).filterMap f = l.filterMap f := by
  induction l with
  | nil => simp [insertBefore, hx]
  | cons a l ih => cases hp : p a <;> simp [insertBefore, hp, hx, filterMap_cons, ih]

theorem filterMap_insertAfter_of_none (hx : f x = none) :
    (insertAfter p x l).filterMap f = l.filterMap f := by
  induction l with
  | nil => simp [insertAfter, hx]
  | cons a l ih => cases hp : p a <;> simp [insertAfter, hp, hx, filterMap_cons, ih]

end FilterMap

theorem map_insertBefore {f : α → β} {r : β → Bool} :
    (insertBefore (fun a => r (f a)) x l).map f = insertBefore r (f x) (l.map f) := by
  rw [← filterMap_eq_map]
  exact filterMap_insertBefore rfl fun _ _ => rfl

/-! ## Ordered lists -/

variable {r : α → α → Prop} [IsTrans α r]

theorem pairwise_insertBefore (hl : l.Pairwise r) (hb : ∀ y ∈ l, p y = true → r x y)
    (ha : ∀ y ∈ l, p y = false → r y x) : (insertBefore p x l).Pairwise r := by
  induction l with
  | nil => exact pairwise_singleton r x
  | cons y l ih =>
    obtain ⟨hy, hl⟩ := pairwise_cons.1 hl
    unfold insertBefore
    cases hp : p y with
    | true =>
      have hxy : r x y := hb y mem_cons_self hp
      refine pairwise_cons.2 ⟨fun z hz => ?_, pairwise_cons.2 ⟨hy, hl⟩⟩
      rcases mem_cons.1 hz with rfl | hz
      · exact hxy
      · exact trans_of r hxy (hy z hz)
    | false =>
      have hyx : r y x := ha y mem_cons_self hp
      refine pairwise_cons.2 ⟨fun z hz => ?_, ih hl
        (fun z hz => hb z (mem_cons_of_mem y hz)) fun z hz => ha z (mem_cons_of_mem y hz)⟩
      rcases mem_insertBefore.1 hz with rfl | hz
      · exact hyx
      · exact hy z hz

/-- Insertion sort, for a relation that is total on the elements of the list only. -/
theorem pairwise_insertionSort [DecidableRel r] (h : l.Pairwise fun a b => r a b ∨ r b a) :
    (l.insertionSort r).Pairwise r := by
  induction l with
  | nil => exact List.Pairwise.nil
  | cons x l ih =>
    obtain ⟨hx, hl⟩ := pairwise_cons.1 h
    have heq : ∀ l : List α, l.orderedInsert r x = insertBefore (fun y => decide (r x y)) x l := by
      intro l
      induction l with
      | nil => rfl
      | cons y l ih => simp [orderedInsert_cons, insertBefore, ih]
    rw [insertionSort_cons, heq]
    refine pairwise_insertBefore (ih hl) (fun y _ hy => of_decide_eq_true hy) fun y hy hn => ?_
    exact (hx y ((mem_insertionSort r).1 hy)).resolve_left (of_decide_eq_false hn)

/-- The place of an element of an ordered list is the number of elements before it. -/
theorem countP_getElem [DecidableRel r] [Std.Irrefl r] (hl : l.Pairwise r) {i : Nat}
    (hi : i < l.length) : l.countP (fun a => decide (r a l[i])) = i := by
  have hasymm : ∀ a b, r a b → ¬ r b a := fun a b h h' => Std.Irrefl.irrefl a (trans_of r h h')
  induction l generalizing i with
  | nil => cases hi
  | cons a l ih =>
    obtain ⟨ha, hl⟩ := pairwise_cons.1 hl
    cases i with
    | zero =>
      refine countP_eq_zero.2 fun b hb => ?_
      rcases mem_cons.1 hb with rfl | hb
      · simpa using Std.Irrefl.irrefl b
      · simpa using hasymm a b (ha b hb)
    | succ i =>
      have hi' : i < l.length := by simpa using hi
      have hr : r a l[i] := ha _ (getElem_mem hi')
      rw [countP_cons]
      simp only [getElem_cons_succ]
      rw [ih hl hi', if_pos (decide_eq_true hr)]

end Anchor
