import Mathlib.Data.List.Basic
import Mathlib.Order.Bounds.Basic
import Mathlib.Order.MinMax
import Mathlib.Tactic.Common

/-!
# Edit distance

`Edits n a b` says that `n` insertions, deletions and substitutions turn `a` into `b`, and `dist`
computes the least such `n` by recursion on both lists (`isLeast_dist`). One edit moves `dist` by at
most one, which is the lower bound; the recursion itself spells out a shortest script.
-/

namespace EditDistance

variable {α : Type} {a b c : List α} {m n : ℕ} {x y : α}

/-- One edit, anywhere in the list. -/
inductive Edit : List α → List α → Prop
  | insert (p s : List α) (x : α) : Edit (p ++ s) (p ++ x :: s)
  | delete (p s : List α) (x : α) : Edit (p ++ x :: s) (p ++ s)
  | substitute (p s : List α) (x y : α) : Edit (p ++ x :: s) (p ++ y :: s)

/-- `n` edits, one after the other. -/
inductive Edits : ℕ → List α → List α → Prop
  | refl (a : List α) : Edits 0 a a
  | step {n : ℕ} {a b c : List α} : Edit a b → Edits n b c → Edits (n + 1) a c

theorem Edit.symm (h : Edit a b) : Edit b a := by
  cases h with
  | insert p s x => exact .delete p s x
  | delete p s x => exact .insert p s x
  | substitute p s x y => exact .substitute p s y x

theorem Edit.reverse (h : Edit a b) : Edit a.reverse b.reverse := by
  cases h with
  | insert p s x => simpa using Edit.insert s.reverse p.reverse x
  | delete p s x => simpa using Edit.delete s.reverse p.reverse x
  | substitute p s x y => simpa using Edit.substitute s.reverse p.reverse x y

namespace Edits

theorem trans (h : Edits m a b) (h' : Edits n b c) : Edits (m + n) a c := by
  induction h with
  | refl a => rwa [Nat.zero_add]
  | step h _ ih =>
    rw [Nat.add_right_comm]
    exact .step h (ih h')

theorem symm (h : Edits n a b) : Edits n b a := by
  induction h with
  | refl a => exact .refl a
  | step h _ ih => exact ih.trans (.step h.symm (.refl _))

theorem reverse (h : Edits n a b) : Edits n a.reverse b.reverse := by
  induction h with
  | refl a => exact .refl _
  | step h _ ih => exact .step h.reverse ih

end Edits

variable [DecidableEq α]

def dist : List α → List α → ℕ
  | [], [] => 0
  | [], _ :: ys => dist [] ys + 1
  | _ :: xs, [] => dist xs [] + 1
  | x :: xs, y :: ys =>
    min (dist xs (y :: ys) + 1) (min (dist (x :: xs) ys + 1) (dist xs ys + if x = y then 0 else 1))
termination_by xs ys => xs.length + ys.length

theorem dist_nil_left (b : List α) : dist [] b = b.length := by
  induction b with
  | nil => simp [dist]
  | cons y b ih => simp [dist, ih]

theorem dist_nil_right (a : List α) : dist a [] = a.length := by
  induction a with
  | nil => simp [dist]
  | cons x a ih => simp [dist, ih]

theorem dist_cons : dist (x :: a) (y :: b) =
    min (dist a (y :: b) + 1) (min (dist (x :: a) b + 1) (dist a b + if x = y then 0 else 1)) := by
  rw [dist]

/-- The recursion spells out a script, here behind a common beginning. -/
theorem edits_dist (a b p : List α) : Edits (dist a b) (p ++ a) (p ++ b) := by
  fun_induction dist a b generalizing p with
  | case1 => exact .refl _
  | case2 y ys ih => exact .step (.insert p [] y) (by simpa using ih (p ++ [y]))
  | case3 x xs ih => exact .step (.delete p xs x) (ih p)
  | case4 x xs y ys ih1 ih2 ih3 =>
    rcases min_choice (dist xs (y :: ys) + 1) _ with h | h <;> rw [h]
    · exact .step (.delete p xs x) (ih1 p)
    rcases min_choice (dist (x :: xs) ys + 1) _ with h | h <;> rw [h]
    · exact .step (.insert p (x :: xs) y) (by simpa using ih2 (p ++ [y]))
    split
    · rename_i hxy
      simpa [hxy] using ih3 (p ++ [y])
    · exact .step (.substitute p xs x y) (by simpa using ih3 (p ++ [y]))

theorem dist_self (a : List α) : dist a a = 0 := by
  induction a with
  | nil => simp [dist]
  | cons x a ih => simp [dist_cons, ih]

theorem dist_cons_le_left (x : α) (a c : List α) : dist (x :: a) c ≤ dist a c + 1 := by
  cases c with
  | nil => rw [dist]
  | cons w c =>
    rw [dist_cons]
    exact min_le_left _ _

theorem dist_cons_le_right (y : α) (a c : List α) : dist a (y :: c) ≤ dist a c + 1 := by
  cases a with
  | nil => rw [dist]
  | cons x a =>
    rw [dist_cons]
    omega

theorem dist_le_cons (x : α) (a c : List α) : dist a c ≤ dist (x :: a) c + 1 := by
  induction c with
  | nil => simp [dist_nil_right, Nat.add_assoc]
  | cons w c ih =>
    have := dist_cons_le_right w a c
    rw [dist_cons]
    omega

theorem dist_cons_le_cons (x y : α) (a c : List α) : dist (x :: a) c ≤ dist (y :: a) c + 1 := by
  induction c with
  | nil => simp [dist_nil_right]
  | cons w c ih =>
    simp only [dist_cons]
    split_ifs <;> omega

theorem dist_append_le (h : ∀ c, dist a c ≤ dist b c + 1) (p c : List α) :
    dist (p ++ a) c ≤ dist (p ++ b) c + 1 := by
  induction p generalizing c with
  | nil => exact h c
  | cons z p ih =>
    induction c with
    | nil =>
      have := ih []
      simpa [dist] using this
    | cons w c ihc =>
      have h1 := ih (w :: c)
      have h2 := ih c
      simp only [List.cons_append, dist_cons] at ihc ⊢
      omega

/-- One edit moves the distance by at most one. -/
theorem Edit.dist_le (h : Edit a b) (c : List α) : dist a c ≤ dist b c + 1 := by
  cases h with
  | insert p s x => exact dist_append_le (dist_le_cons x s) p c
  | delete p s x => exact dist_append_le (dist_cons_le_left x s) p c
  | substitute p s x y => exact dist_append_le (dist_cons_le_cons x y s) p c

theorem isLeast_dist (a b : List α) : IsLeast {n | Edits n a b} (dist a b) := by
  refine ⟨edits_dist a b [], fun n h => ?_⟩
  induction h with
  | refl a => rw [dist_self]
  | step h _ ih => exact (h.dist_le _).trans (Nat.add_le_add_right ih 1)

end EditDistance
