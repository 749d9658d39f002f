import Mathlib.Data.List.Forall2
import Mathlib.Data.List.Nodup
import Mathlib.Data.List.Perm.Basic
import Mathlib.Tactic.Common

/-!
# Keyed lists

Two uses of a list as a finite map. A table is a list of rows with a key function that is injective
on it (`(rows.map key).Nodup`); a row is found by its key. An association list binds keys to values;
adding in front, erasing and overwriting act on `List.lookup` as on a map, and undo each other.
-/

namespace Table

open List

section Rows

variable {α κ : Type} {key : α → κ} {l : List α}

theorem find_of_mem [DecidableEq κ] (h : (l.map key).Nodup) {x : α} (hx : x ∈ l) {k : κ}
    (hk : key x = k) : l.find? (fun y => decide (key y = k)) = some x := by
  subst hk
  induction l with
  | nil => cases hx
  | cons y ys ih =>
    rw [map_cons, nodup_cons] at h
    by_cases hy : key y = key x
    · rcases mem_cons.1 hx with rfl | hx'
      · simp
      · exact absurd (hy ▸ mem_map_of_mem hx') h.1
    · rcases mem_cons.1 hx with rfl | hx'
      · exact absurd rfl hy
      · rw [find?_cons_of_neg (by simpa using hy)]
        exact ih h.2 hx'

theorem mem_of_find [DecidableEq κ] {k : κ} {x : α}
    (h : l.find? (fun y => decide (key y = k)) = some x) : x ∈ l ∧ key x = k :=
  ⟨mem_of_find?_eq_some h, by simpa using find?_some h⟩

theorem eq_of_key (h : (l.map key).Nodup) {x y : α} (hx : x ∈ l) (hy : y ∈ l)
    (hk : key x = key y) : x = y := inj_on_of_nodup_map h hx hy hk

theorem filter_of_mem [DecidableEq κ] (h : (l.map key).Nodup) {x : α} (hx : x ∈ l) :
    l.filter (fun y => key y = key x) = [x] := by
  induction l with
  | nil => cases hx
  | cons y l ih =>
    obtain ⟨hnot, hl⟩ := nodup_cons.1 h
    rcases mem_cons.1 hx with rfl | hx
    · have hrest : l.filter (fun y => key y = key x) = [] := by
        rw [filter_eq_nil_iff]
        intro z hz heq
        exact hnot (mem_map.2 ⟨z, hz, of_decide_eq_true heq⟩)
      rw [filter_cons_of_pos (by simp), hrest]
    · have hne : key y ≠ key x := fun heq => hnot (mem_map.2 ⟨x, hx, heq.symm⟩)
      rw [filter_cons_of_neg (by simpa using hne), ih hl hx]

theorem nodup_filter (h : (l.map key).Nodup) (p : α → Bool) : ((l.filter p).map key).Nodup :=
  List.Nodup.sublist (List.Sublist.map _ filter_sublist) h

theorem nodup_concat (h : (l.map key).Nodup) {x : α} (hx : ∀ y ∈ l, key y ≠ key x) :
    ((l ++ [x]).map key).Nodup := by
  rw [map_append, nodup_append]
  refine ⟨h, by simp, ?_⟩
  rintro a ha b hb rfl
  simp only [map_cons, map_nil, mem_singleton] at hb
  obtain ⟨y, hy, rfl⟩ := mem_map.1 ha
  exact hx y hy hb

end Rows

section Assoc

variable {κ ν : Type} [DecidableEq κ] {l : List (κ × ν)}

theorem lookup_cons (a k : κ) (v : ν) :
    ((k, v) :: l).lookup a = if a = k then some v else l.lookup a := by
  rw [List.lookup_cons]
  by_cases h : a = k
  · simp [h]
  · rw [if_neg h, beq_false_of_ne h]

theorem lookup_eq_none {a : κ} : l.lookup a = none ↔ ∀ x ∈ l, x.1 ≠ a := by
  induction l with
  | nil => simp
  | cons x xs ih =>
    obtain ⟨k, v⟩ := x
    rw [lookup_cons]
    by_cases h : a = k
    · simp [h]
    · simp [h, ih, Ne.symm h]

theorem mem_of_lookup {a : κ} {v : ν} (h : l.lookup a = some v) : (a, v) ∈ l := by
  induction l with
  | nil => simp at h
  | cons x xs ih =>
    obtain ⟨k, v'⟩ := x
    rw [lookup_cons] at h
    by_cases hk : a = k
    · simp only [hk, if_true, Option.some.injEq] at h
      subst hk h
      exact mem_cons_self ..
    · rw [if_neg hk] at h
      exact mem_cons_of_mem _ (ih h)

/-- Looking up after dropping the entries whose key has a property. -/
theorem lookup_drop (P : κ → Prop) [DecidablePred P] (a : κ)
    {inst : ∀ x : κ × ν, Decidable (¬ P x.1)} :
    (l.filter fun x => @decide (¬ P x.1) (inst x)).lookup a = if P a then none else l.lookup a := by
  induction l with
  | nil => simp
  | cons x xs ih =>
    obtain ⟨k, v⟩ := x
    by_cases hk : P k
    · rw [filter_cons_of_neg (by simpa using hk), lookup_cons, ih]
      by_cases h : a = k
      · simp [h, hk]
      · simp [h]
    · rw [filter_cons_of_pos (by simpa using hk), lookup_cons, lookup_cons, ih]
      by_cases h : a = k
      · simp [h, hk]
      · simp [h]

/-- Erasing what was added in front of a list without that key gives the list back. -/
theorem filter_cons_of_lookup_none {k : κ} {v : ν} (h : l.lookup k = none) :
    ((k, v) :: l).filter (fun x => decide (x.1 ≠ k)) = l := by
  rw [filter_cons_of_neg (by simp)]
  exact filter_eq_self.2 fun x hx => by simpa using lookup_eq_none.1 h x hx

theorem filter_of_lookup_none {k : κ} (h : l.lookup k = none) :
    l.filter (fun x => decide (x.1 ≠ k)) = l :=
  filter_eq_self.2 fun x hx => by simpa using lookup_eq_none.1 h x hx

def set (k : κ) (v : ν) (l : List (κ × ν)) : List (κ × ν) :=
  l.map fun x => if x.1 = k then (k, v) else x

theorem lookup_set (k : κ) (v : ν) (a : κ) :
    (set k v l).lookup a =
      if a = k then (if (l.lookup k).isSome then some v else none) else l.lookup a := by
  induction l with
  | nil => simp [set]
  | cons x xs ih =>
    obtain ⟨k', v'⟩ := x
    unfold set at ih ⊢
    rw [map_cons]
    by_cases hk : k' = k
    · subst hk
      rw [lookup_cons, lookup_cons, lookup_cons, ih]
      by_cases h : a = k'
      · simp [h]
      · simp [h]
    · simp only [hk, if_false]
      rw [lookup_cons, lookup_cons, lookup_cons, ih]
      by_cases h : a = k'
      · subst h
        simp [hk]
      · by_cases ha : a = k
        · subst ha
          rw [if_neg h, if_neg h]
        · simp [h, ha]

theorem set_set_of_lookup {k : κ} {v old : ν} (hn : (l.map Prod.fst).Nodup)
    (h : l.lookup k = some old) : set k old (set k v l) = l := by
  induction l with
  | nil => simp at h
  | cons x xs ih =>
    obtain ⟨k', v'⟩ := x
    rw [map_cons, nodup_cons] at hn
    unfold set at ih ⊢
    rw [lookup_cons] at h
    rw [map_cons, map_cons]
    by_cases hk : k = k'
    · subst hk
      simp only [if_true, Option.some.injEq] at h
      subst h
      have hne : ∀ x ∈ xs, x.1 ≠ k := fun x hx hxk => hn.1 (mem_map.2 ⟨x, hx, hxk⟩)
      have hid : ∀ w : ν, xs.map (fun x => if x.1 = k then (k, w) else x) = xs := fun w =>
        (map_congr_left fun x hx => by simp [hne x hx]).trans (map_id _)
      simp [hid]
    · rw [if_neg hk] at h
      simp only [Ne.symm hk, if_false]
      rw [ih hn.2 h]

end Assoc

section Pointwise

variable {α β : Type} {R : α → β → Prop}

theorem exists_right {l : List α} {l' : List β} (h : List.Forall₂ R l l') :
    ∀ {i : Nat} {a : α}, l[i]? = some a → ∃ b, l'[i]? = some b ∧ R a b := by
  induction h with
  | nil =>
    intro i a ha
    simp at ha
  | cons hab _ ih =>
    intro i a ha
    cases i with
    | zero =>
      simp only [getElem?_cons_zero, Option.some.injEq] at ha
      subst ha
      exact ⟨_, rfl, hab⟩
    | succ i => exact ih ha

theorem pairwise_getElem? {S : α → α → Prop} {l : List α} (h : l.Pairwise S) {i j : Nat} {a b : α}
    (hij : i < j) (ha : l[i]? = some a) (hb : l[j]? = some b) : S a b := by
  obtain ⟨hi, rfl⟩ := List.getElem?_eq_some_iff.1 ha
  obtain ⟨hj, rfl⟩ := List.getElem?_eq_some_iff.1 hb
  exact pairwise_iff_getElem.1 h i j hi hj hij

theorem exists_left {l : List α} {l' : List β} {i : Nat} {b : β} (h : List.Forall₂ R l l')
    (hb : l'[i]? = some b) : ∃ a, l[i]? = some a ∧ R a b :=
  exists_right h.flip hb

end Pointwise

end Table
