import Mathlib.Data.List.Nodup
import Mathlib.Data.Fintype.Card
import Mathlib.Order.WellFounded
import Mathlib.Data.Set.Finite.List

/-!
# Peeling a relation by repeated sweeps

Elements are taken one after the other, each only when everything before it has been taken. A sweep
goes over the candidates in their order; sweeps are repeated until one takes nothing.

Main results:
* `sweeps_stable`: as many sweeps as there are candidates are enough.
* `mem_sweeps`: what is taken are the elements that can be taken at all (`Takeable`).
* `takeable_iff`: those are the candidates before which there are only candidates, and no cycle.
* `Ordered.sweeps`: each is taken once, after everything before it.
-/

namespace Peel

open List

variable {α : Type} [DecidableEq α] {before : α → List α} {as done : List α} {a d : α} {n : Nat}

/-- One sweep over the candidates. -/
def sweep (before : α → List α) : List α → List α → List α
  | [], done => done
  | a :: as, done =>
    if a ∈ done ∨ ¬ ∀ d ∈ before a, d ∈ done then sweep before as done
    else sweep before as (done ++ [a])

/-- Sweeps until one takes nothing. -/
def sweeps (before : α → List α) (as : List α) : Nat → List α → List α
  | 0, done => done
  | n + 1, done =>
    if sweep before as done = done then done else sweeps before as n (sweep before as done)

/-- What can be taken at some time. -/
inductive Takeable (before : α → List α) (as : List α) : α → Prop
  | mk {a : α} (candidate : a ∈ as) (rest : ∀ d ∈ before a, Takeable before as d) :
    Takeable before as a

/-- Each element stands once, after everything before it. -/
structure Ordered (before : α → List α) (done : List α) : Prop where
  nodup : done.Nodup
  after : ∀ xs a ys, done = xs ++ a :: ys → ∀ d ∈ before a, d ∈ xs

/-! ## One sweep -/

theorem sweep_extends : ∀ (as done : List α), done <+: sweep before as done
  | [], done => prefix_refl done
  | a :: as, done => by
    unfold sweep
    split
    · exact sweep_extends as done
    · exact (prefix_append done [a]).trans (sweep_extends as _)

theorem mem_sweep (h : a ∈ sweep before as done) : a ∈ done ∨ a ∈ as := by
  induction as generalizing done with
  | nil => exact .inl h
  | cons b as ih =>
    unfold sweep at h
    split at h
    · exact (ih h).imp_right (mem_cons_of_mem b)
    · rcases ih h with h | h
      · rcases mem_append.1 h with h | h
        · exact .inl h
        · exact .inr (mem_singleton.1 h ▸ mem_cons_self)
      · exact .inr (mem_cons_of_mem b h)

/-- A candidate with everything before it taken is taken. -/
theorem sweep_takes (ha : a ∈ as) (h : ∀ d ∈ before a, d ∈ done) : a ∈ sweep before as done := by
  induction as generalizing done with
  | nil => cases ha
  | cons b as ih =>
    unfold sweep
    rcases mem_cons.1 ha with rfl | ha
    · split
      · next hskip =>
        exact (sweep_extends as done).subset (hskip.resolve_right fun hn => hn h)
      · exact (sweep_extends as _).subset (mem_append_right _ (mem_singleton.2 rfl))
    · split
      · exact ih ha h
      · exact ih ha fun d hd => mem_append_left _ (h d hd)

omit [DecidableEq α] in
theorem Ordered.append (h : Ordered before done) (ha : a ∉ done) (hb : ∀ d ∈ before a, d ∈ done) :
    Ordered before (done ++ [a]) where
  nodup := by
    refine List.Nodup.append h.nodup (nodup_singleton a) ?_
    intro x hx hxa
    exact ha (mem_singleton.1 hxa ▸ hx)
  after xs b ys heq := by
    rcases eq_nil_or_concat ys with rfl | ⟨ys, y, rfl⟩
    · obtain ⟨rfl, hab⟩ := append_inj' heq rfl
      cases hab
      exact hb
    · rw [concat_eq_append, ← cons_append, ← append_assoc] at heq
      obtain ⟨heq, -⟩ := append_inj' heq rfl
      exact h.after xs b ys heq

theorem Ordered.sweep (h : Ordered before done) : Ordered before (sweep before as done) := by
  induction as generalizing done with
  | nil => exact h
  | cons b as ih =>
    unfold Peel.sweep
    split
    · exact ih h
    · next hn =>
      rw [not_or, not_not] at hn
      exact ih (h.append hn.1 hn.2)

/-! ## Sweeps -/

theorem Ordered.sweeps (h : Ordered before done) : Ordered before (sweeps before as n done) := by
  induction n generalizing done with
  | zero => exact h
  | succ n ih =>
    unfold Peel.sweeps
    split
    · exact h
    · exact ih h.sweep

omit [DecidableEq α] in
theorem ordered_nil : Ordered before ([] : List α) where
  nodup := nodup_nil
  after xs a ys h := by
    cases xs <;> cases h

theorem sweep_grows (h : sweep before as done ≠ done) :
    done.length < (sweep before as done).length := by
  have hpre := @sweep_extends _ _ before as done
  refine Nat.lt_of_le_of_ne hpre.length_le fun heq => h ?_
  exact (hpre.eq_of_length heq).symm

/-- **Enough sweeps are reached**: another one would take nothing. -/
theorem sweeps_stable (ho : Ordered before done) (hsub : done ⊆ as)
    (hn : as.length ≤ done.length + n) :
    sweep before as (sweeps before as n done) = sweeps before as n done := by
  induction n generalizing done with
  | zero =>
    by_contra hne
    have hlen := sweep_grows hne
    have hle : (sweep before as done).length ≤ as.length :=
      (ho.sweep.nodup.subperm fun x hx => (mem_sweep hx).elim (@hsub x) id).length_le
    simp only [sweeps] at hlen
    omega
  | succ n ih =>
    unfold sweeps
    split
    · next h => exact h
    · next h =>
      have hlen := sweep_grows h
      exact ih ho.sweep (fun x hx => (mem_sweep hx).elim (@hsub x) id) (by omega)

theorem sweep_congr {before' : α → List α} (h : ∀ a d, d ∈ before a ↔ d ∈ before' a)
    (as done : List α) : sweep before as done = sweep before' as done := by
  induction as generalizing done with
  | nil => rfl
  | cons a as ih =>
    have hready : (∀ d ∈ before a, d ∈ done) ↔ ∀ d ∈ before' a, d ∈ done := by
      simp only [h]
    simp only [sweep, hready, ih]

theorem sweeps_congr {before' : α → List α} (h : ∀ a d, d ∈ before a ↔ d ∈ before' a)
    (as : List α) (n : Nat) (done : List α) :
    sweeps before as n done = sweeps before' as n done := by
  induction n generalizing done with
  | zero => rfl
  | succ n ih => simp only [sweeps, sweep_congr h, ih]

/-! ## What is taken -/

omit [DecidableEq α] in
theorem takeable_of_ordered (h : Ordered before done) (hsub : done ⊆ as) :
    ∀ a ∈ done, Takeable before as a := by
  -- by induction on the part of the list that ends with the element
  suffices hpart : ∀ (xs : List α) a ys, done = xs ++ a :: ys → Takeable before as a by
    intro a ha
    obtain ⟨xs, ys, heq⟩ := append_of_mem ha
    exact hpart xs a ys heq
  intro xs
  induction hlen : xs.length using Nat.strong_induction_on generalizing xs with
  | _ k ih =>
    intro a ys heq
    refine .mk (hsub (heq ▸ mem_append_right _ mem_cons_self)) fun d hd => ?_
    obtain ⟨us, vs, rfl⟩ := append_of_mem (h.after xs a ys heq d hd)
    refine ih us.length ?_ us rfl d (vs ++ a :: ys) ?_
    · rw [← hlen, length_append, length_cons]
      omega
    · rw [heq, append_assoc, cons_append]

theorem mem_of_stable (h : sweep before as done = done) (ha : Takeable before as a) : a ∈ done := by
  induction ha with
  | mk hc _ ih => exact h ▸ sweep_takes hc ih

theorem sweeps_subset (hsub : done ⊆ as) : sweeps before as n done ⊆ as := by
  induction n generalizing done with
  | zero => exact hsub
  | succ n ih =>
    unfold sweeps
    split
    · exact hsub
    · exact ih fun x hx => (mem_sweep hx).elim (@hsub x) id

/-- **The sweeps take what can be taken.** -/
theorem mem_sweeps : a ∈ sweeps before as as.length [] ↔ Takeable before as a := by
  constructor
  · exact takeable_of_ordered ordered_nil.sweeps (sweeps_subset (nil_subset as)) a
  · exact mem_of_stable (sweeps_stable ordered_nil (nil_subset as) (by simp))

/-! ## Cycles -/

section Cycles

open Relation

omit [DecidableEq α]

/-- `d` stands before `a`. -/
def Before (before : α → List α) (d a : α) : Prop := d ∈ before a

theorem Takeable.acc (h : Takeable before as a) : Acc (Before before) a := by
  induction h with
  | mk _ _ ih => exact ⟨_, fun d hd => ih d hd⟩

theorem Takeable.of_transGen (h : Takeable before as a) (hd : TransGen (Before before) d a) :
    Takeable before as d := by
  induction hd using TransGen.head_induction_on with
  | single hda =>
    cases h with
    | mk _ hrest => exact hrest _ hda
  | head hdb _ ih =>
    cases ih with
    | mk _ hrest => exact hrest _ hdb

theorem Takeable.mem (h : Takeable before as a) : a ∈ as := by
  cases h with
  | mk hc _ => exact hc

theorem not_rel_self_of_acc {r : α → α → Prop} (h : Acc r a) : ¬ r a a := by
  induction h with
  | intro a _ ih => exact fun hr => ih a hr hr

/-- **What can be taken**: the candidates before which there are only candidates, none of them on a
cycle. -/
theorem takeable_iff : Takeable before as a ↔
    a ∈ as ∧ ∀ d, TransGen (Before before) d a → d ∈ as ∧ ¬ TransGen (Before before) d d := by
  constructor
  · intro h
    refine ⟨h.mem, fun d hd => ?_⟩
    have hd' := h.of_transGen hd
    refine ⟨hd'.mem, fun hcycle => ?_⟩
    exact not_rel_self_of_acc hd'.acc.transGen hcycle
  · rintro ⟨ha, h⟩
    -- the elements from which `a` is reached are finite, and the relation on them has no cycle
    let S : Set α := {d | d = a ∨ TransGen (Before before) d a}
    have hfin : Finite S := by
      refine Set.Finite.subset (finite_toSet as) ?_
      rintro d (rfl | hd)
      · exact ha
      · exact (h d hd).1
    have hirrefl : ∀ d : S, ¬ TransGen (Before before) d.1 d.1 := by
      rintro ⟨d, rfl | hd⟩ hcycle
      · exact (h d hcycle).2 hcycle
      · exact (h d hd).2 hcycle
    have : IsTrans S fun x y => TransGen (Before before) x.1 y.1 := ⟨fun _ _ _ => TransGen.trans⟩
    have : Std.Irrefl fun x y : S => TransGen (Before before) x.1 y.1 := ⟨hirrefl⟩
    have hwf := Finite.wellFounded_of_trans_of_irrefl fun x y : S =>
      TransGen (Before before) x.1 y.1
    suffices hall : ∀ x : S, Takeable before as x.1 from hall ⟨a, .inl rfl⟩
    intro x
    induction x using hwf.induction with
    | _ x ih =>
      have hx : x.1 ∈ as := by
        rcases x.2 with heq | hd
        · exact heq ▸ ha
        · exact (h _ hd).1
      refine .mk hx fun d hd => ?_
      have hda : TransGen (Before before) d a := by
        rcases x.2 with heq | hxa
        · exact .single (heq ▸ hd)
        · exact .head hd hxa
      exact ih ⟨d, .inr hda⟩ (.single hd)

end Cycles

end Peel
