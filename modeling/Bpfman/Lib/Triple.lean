import Bpfman.Lib.Proc

/-!
# Pre- and postconditions of fallible procedures

`Triple P m Q E`: from a state with `P`, the procedure `m` ends with a value and a state in `Q`, or
with an error and a state in `E`. Both ends are described, since a procedure that fails leaves what
it has done so far.
-/

namespace Fallible

open Outcome Proc

variable {σ ε α β γ : Type} {m : Proc σ ε α}

/-- What holds at the end of `m`, one condition for each of its two ends. -/
def Triple (P : σ → Prop) (m : Proc σ ε α) (Q : α → σ → Prop) (E : σ → Prop) : Prop :=
  ∀ s, P s → (∀ a s', m s = ok a s' → Q a s') ∧ ∀ e s', m s = err e s' → E s'

namespace Triple

variable {P P' : σ → Prop} {Q Q' : α → σ → Prop} {R : β → σ → Prop} {E E' : σ → Prop}

theorem of_ok {o : Outcome σ ε α} {a : α} {s : σ} (ho : o = .ok a s) (h : Q a s) :
    (∀ a s', o = .ok a s' → Q a s') ∧ ∀ e s', o = .err e s' → E s' := by
  subst ho
  exact ⟨fun a s' hm => by cases hm; exact h, fun e s' hm => by cases hm⟩

theorem of_err {o : Outcome σ ε α} {e : ε} {s : σ} (ho : o = .err e s) (h : E s) :
    (∀ a s', o = .ok a s' → Q a s') ∧ ∀ e s', o = .err e s' → E s' := by
  subst ho
  exact ⟨fun a s' hm => (by cases hm), fun e s' hm => by cases hm; exact h⟩

theorem ok (h : Triple P m Q E) {s s' : σ} {a : α} (hp : P s) (hm : m s = .ok a s') : Q a s' :=
  (h s hp).1 a s' hm

theorem err (h : Triple P m Q E) {s s' : σ} {e : ε} (hp : P s) (hm : m s = .err e s') : E s' :=
  (h s hp).2 e s' hm

theorem conseq (h : Triple P m Q E) (hP : ∀ s, P' s → P s)
    (hQ : ∀ a s, Q a s → Q' a s) (hE : ∀ s, E s → E' s) : Triple P' m Q' E' := by
  intro s hp
  exact ⟨fun a s' hm => hQ a s' (h.ok (hP s hp) hm), fun e s' hm => hE s' (h.err (hP s hp) hm)⟩

theorem mono_err (h : Triple P m Q E) (hE : ∀ s, E s → E' s) : Triple P m Q E' :=
  h.conseq (fun _ hp => hp) (fun _ _ hq => hq) hE

theorem pure {a : α} (h : ∀ s, P s → Q a s) : Triple P (Pure.pure a : Proc σ ε α) Q E := by
  intro s hp
  exact of_ok rfl (h s hp)

theorem fail {e : ε} (h : ∀ s, P s → E s) : Triple P (fail e : Proc σ ε α) Q E := by
  intro s hp
  exact of_err rfl (h s hp)

theorem modify {f : σ → σ} {Q : Unit → σ → Prop} (h : ∀ s, P s → Q () (f s)) :
    Triple P (modify f : Proc σ ε Unit) Q E := by
  intro s hp
  exact of_ok rfl (h s hp)

theorem bind {f : α → Proc σ ε β} (hm : Triple P m Q E)
    (hf : ∀ a, Triple (Q a) (f a) R E) : Triple P (m >>= f) R E := by
  intro s hp
  constructor
  · intro b s' h
    obtain ⟨a, s1, h1, h2⟩ := bind_eq_ok.mp h
    exact (hf a).ok (hm.ok hp h1) h2
  · intro e s' h
    rcases bind_eq_err.mp h with h1 | ⟨a, s1, h1, h2⟩
    · exact hm.err hp h1
    · exact (hf a).err (hm.ok hp h1) h2

theorem read_bind {g : σ → α} {f : α → Proc σ ε β}
    (hf : ∀ a, Triple (fun s => P s ∧ g s = a) (f a) R E) : Triple P (read g >>= f) R E :=
  bind (Q := fun a s => P s ∧ g s = a) (fun _ hp => of_ok rfl ⟨hp, rfl⟩) hf

theorem ite {c : Prop} [Decidable c] {n : Proc σ ε α} (hm : c → Triple P m Q E)
    (hn : ¬ c → Triple P n Q E) : Triple P (if c then m else n) Q E := by
  by_cases hc : c
  · rw [if_pos hc]
    exact hm hc
  · rw [if_neg hc]
    exact hn hc

theorem mapErr {g : ε → ε} (h : Triple P m Q E) : Triple P (mapErr g m) Q E := by
  intro s hp
  refine ⟨fun a s' hm => h.ok hp (mapErr_eq_ok.mp hm), fun e s' hm => ?_⟩
  obtain ⟨e1, h1, -⟩ := mapErr_eq_err.mp hm
  exact h.err hp h1

/-- The handler of a failure takes its state on, however it ends itself. -/
theorem onErr {c : Proc σ ε β} (h : Triple P m Q E)
    (hc : Triple E c (fun _ => E') E') : Triple P (onErr m c) Q E' := by
  intro s hp
  refine ⟨fun a s' hm => h.ok hp (onErr_eq_ok.mp hm), fun e s' hm => ?_⟩
  obtain ⟨s1, h1, rfl⟩ := onErr_eq_err.mp hm
  have he := h.err hp h1
  cases hs : c s1 with
  | ok b s2 => exact hc.ok he hs
  | err e2 s2 => exact hc.err he hs

theorem ignore {S : σ → Prop} (h : Triple P m (fun _ => S) S) :
    Triple P (ignore m : Proc σ ε Unit) (fun _ => S) E := by
  intro s hp
  refine ⟨fun a s' hm => ?_, fun e s' hm => (by cases hm)⟩
  cases hm
  cases hs : m s with
  | ok b s2 => exact h.ok hp hs
  | err e2 s2 => exact h.err hp hs

/-- The rule for a loop: the invariant says which elements are done. -/
theorem forEach {f : α → Proc σ ε Unit} {I : List α → σ → Prop}
    (hf : ∀ done a, Triple (I done) (f a) (fun _ => I (done ++ [a])) E) :
    ∀ (as done : List α), Triple (I done) (forEach f as) (fun _ => I (done ++ as)) E
  | [], done => by
    rw [List.append_nil]
    exact pure fun _ hp => hp
  | a :: as, done => by
    have h := bind (hf done a) fun _ => forEach hf as (done ++ [a])
    rwa [List.append_assoc, List.singleton_append] at h

end Triple

end Fallible
