import Mathlib.Data.List.Pairwise
import Mathlib.Data.List.Sort
import Mathlib.Tactic.Common

/-!
# Lists with one sorted arrangement

A query sorted by some columns may return rows that tie on them in any order. When is the order of
the result determined? Exactly when no two rows tie: `only_arrangement_iff`.
-/

namespace Arrange

variable {α : Type} {r : α → α → Prop}

theorem not_sublist_swap {a b : α} : ∀ {l : List α}, l.Nodup → [a, b].Sublist l → ¬ [b, a].Sublist l
  | [], _, h, _ => by cases h
  | x :: l, hn, h, h' => by
    obtain ⟨hx, hn⟩ := List.nodup_cons.1 hn
    cases h with
    | cons _ h =>
      cases h' with
      | cons _ h' => exact not_sublist_swap hn h h'
      | cons_cons _ _ => exact hx (h.subset (by simp))
    | cons_cons _ h =>
      cases h' with
      | cons _ h' => exact hx (h'.subset (by simp))
      | cons_cons _ h' => exact hx (h.subset (by simp))

/-- In a list that ascends by `f`, a pairwise relation holds of any two elements that `f` orders. -/
theorem rel_of_lt {κ : Type} [Preorder κ] {f : α → κ} {l : List α}
    (hf : l.Pairwise fun a b => f a < f b) (hr : l.Pairwise r) {a b : α} (ha : a ∈ l) (hb : b ∈ l)
    (hlt : f a < f b) : r a b := by
  have : Std.Symm fun a b => (f a < f b → r a b) ∧ (f b < f a → r b a) := ⟨fun _ _ h => h.symm⟩
  have hall : l.Pairwise fun a b => (f a < f b → r a b) ∧ (f b < f a → r b a) :=
    (hf.and hr).imp fun h => ⟨fun _ => h.2, fun hgt => absurd h.1 hgt.asymm⟩
  exact (hall.forall ha hb fun h => hlt.ne (by rw [h])).1 hlt

variable [DecidableRel r] [Std.Total r] [IsTrans α r]

/-- **A list is the only sorted arrangement of its elements** iff each of them is strictly below all
later ones. -/
theorem only_arrangement_iff {l : List α} (hn : l.Nodup) :
    (∀ l' : List α, l'.Perm l → l'.Pairwise r → l' = l) ↔
      l.Pairwise fun a b => r a b ∧ ¬ r b a := by
  constructor
  · intro h
    have hsorted : l.Pairwise r := by
      rw [← h _ (List.perm_insertionSort r l) (List.pairwise_insertionSort r l)]
      exact List.pairwise_insertionSort r l
    -- sorting the reversed list puts the later of two tied elements first
    have hrev : l.reverse.insertionSort r = l :=
      h _ ((List.perm_insertionSort r _).trans l.reverse_perm) (List.pairwise_insertionSort r _)
    rw [List.pairwise_iff_forall_sublist]
    intro a b hab
    refine ⟨List.pairwise_iff_forall_sublist.1 hsorted hab, fun hba => ?_⟩
    have hswap : [b, a].Sublist l.reverse := by simpa using hab.reverse
    have hsub := List.pair_sublist_insertionSort hba hswap
    rw [hrev] at hsub
    exact not_sublist_swap hn hab hsub
  · intro h l' hp hs
    refine hp.eq_of_pairwise (fun a b ha hb hab hba => ?_) hs (h.imp fun hr => hr.1)
    have hties : l.Pairwise fun a b => ¬ (r a b ∧ r b a) := h.imp fun hr hr' => hr.2 hr'.2
    have : Std.Symm fun a b => ¬ (r a b ∧ r b a) := ⟨fun _ _ hr hr' => hr hr'.symm⟩
    by_contra hne
    exact hties.forall (hp.mem_iff.1 ha) hb hne ⟨hab, hba⟩

end Arrange
