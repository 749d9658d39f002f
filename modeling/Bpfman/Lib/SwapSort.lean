import Mathlib.Data.List.Perm.Basic
import Mathlib.Order.Lattice
import Mathlib.Tactic.Common

/-!
# Insertion sort by adjacent swaps

The sort a loop like `for i { for j := i; j > 0 && lt(a[j], a[j-1]); j-- { swap } }` performs: each
element moves to the left while it is less than its neighbour. The sorted part is kept right to
left, so the neighbour the element meets next is the head.

`lt` may be any comparison that a key into a linear order gives (`KeyLt`); the sort permutes its
input and leaves no later element less than an earlier one.
-/

namespace SwapSort

variable {α : Type} (lt : α → α → Bool)

/-- Move `x` to the left past the elements it is less than. -/
def insert (x : α) : List α → List α
  | [] => [x]
  | y :: ys => if lt x y then y :: insert x ys else x :: y :: ys

/-- Sort by inserting the elements one after the other. -/
def sort (l : List α) : List α := (l.foldl (fun sorted x => insert lt x sorted) []).reverse

theorem insert_perm (x : α) : ∀ l : List α, (insert lt x l).Perm (x :: l)
  | [] => List.Perm.refl _
  | y :: ys => by
    unfold insert
    split
    · exact ((insert_perm x ys).cons y).trans (List.Perm.swap x y ys)
    · exact List.Perm.refl _

theorem foldl_insert_perm : ∀ (l acc : List α),
    (l.foldl (fun sorted x => insert lt x sorted) acc).Perm (l ++ acc)
  | [], acc => List.Perm.refl _
  | x :: l, acc => by
    refine (foldl_insert_perm l (insert lt x acc)).trans ?_
    refine ((insert_perm lt x acc).append_left l).trans ?_
    exact List.perm_middle

theorem sort_perm (l : List α) : (sort lt l).Perm l := by
  have h := foldl_insert_perm lt l []
  rw [List.append_nil] at h
  exact (List.reverse_perm _).trans h

/-- `lt` compares a key into a linear order. -/
def KeyLt {κ : Type} [LinearOrder κ] (key : α → κ) : Prop :=
  ∀ a b, lt a b = true ↔ key a < key b

section Sorted

variable {lt} {κ : Type} [LinearOrder κ] {key : α → κ}

theorem insert_sorted (hlt : KeyLt lt key) (x : α) : ∀ {l : List α},
    l.Pairwise (fun a b => key b ≤ key a) →
      (insert lt x l).Pairwise (fun a b => key b ≤ key a)
  | [], _ => List.pairwise_singleton _ _
  | y :: ys, h => by
    obtain ⟨hy, hys⟩ := List.pairwise_cons.1 h
    unfold insert
    split
    · rename_i hxy
      refine List.pairwise_cons.2 ⟨fun z hz => ?_, insert_sorted hlt x hys⟩
      rcases List.mem_cons.1 ((insert_perm lt x ys).mem_iff.1 hz) with rfl | hz
      · exact ((hlt _ _).1 hxy).le
      · exact hy z hz
    · rename_i hxy
      have hyx : key y ≤ key x := not_lt.1 fun hk => hxy ((hlt _ _).2 hk)
      refine List.pairwise_cons.2 ⟨fun z hz => ?_, h⟩
      rcases List.mem_cons.1 hz with rfl | hz
      · exact hyx
      · exact (hy z hz).trans hyx

theorem sort_sorted (hlt : KeyLt lt key) (l : List α) :
    (sort lt l).Pairwise (fun a b => key a ≤ key b) := by
  unfold sort
  rw [List.pairwise_reverse]
  have : ∀ (l acc : List α), acc.Pairwise (fun a b => key b ≤ key a) →
      (l.foldl (fun sorted x => insert lt x sorted) acc).Pairwise (fun a b => key b ≤ key a) := by
    intro l
    induction l with
    | nil => exact fun acc h => h
    | cons x l ih => exact fun acc h => ih _ (insert_sorted hlt x h)
  exact this l [] List.Pairwise.nil

end Sorted

end SwapSort
