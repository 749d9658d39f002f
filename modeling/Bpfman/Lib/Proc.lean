import Mathlib.Data.List.Infix
import Mathlib.Tactic.Common

/-!
# Fallible stateful procedures

A procedure takes a state and ends in an outcome: a value or an error, and in both cases the
state it leaves behind. Nothing is rolled back on an error, as in a program whose calls return
`(value, error)`: undoing the effects of the earlier calls is the caller's work, and what is left
over after a failed call is part of the outcome.

Main rules:
* `bind_eq_ok`, `bind_eq_err` — what a sequence that ended one way did;
* `Keeps` — every run of a procedure relates its first and last state, composed along `bind`,
  `attempt`, `onErr`, `ignore` and `forEach`;
* `Commutes` — a part of the state that a procedure does not look at;
* `Journaled` — a procedure that writes down every failure in a journal, so that a run that leaves
  the journal as it was succeeds (`Journaled.isOk`).
-/

namespace Fallible

/-- How a procedure ended, with the state it left. -/
inductive Outcome (σ ε α : Type) where
  | ok (a : α) (s : σ)
  | err (e : ε) (s : σ)

namespace Outcome

variable {σ ε α : Type}

def state : Outcome σ ε α → σ
  | ok _ s => s
  | err _ s => s

def isOk : Outcome σ ε α → Bool
  | ok _ _ => true
  | err _ _ => false

def mapState (g : σ → σ) : Outcome σ ε α → Outcome σ ε α
  | ok a s => ok a (g s)
  | err e s => err e (g s)

def value? : Outcome σ ε α → Option α
  | ok a _ => some a
  | err _ _ => none

@[simp] theorem state_ok (a : α) (s : σ) : (ok a s : Outcome σ ε α).state = s := rfl
@[simp] theorem state_err (e : ε) (s : σ) : (err e s : Outcome σ ε α).state = s := rfl
@[simp] theorem isOk_ok (a : α) (s : σ) : (ok a s : Outcome σ ε α).isOk = true := rfl
@[simp] theorem isOk_err (e : ε) (s : σ) : (err e s : Outcome σ ε α).isOk = false := rfl

theorem eq_ok_of_isOk {o : Outcome σ ε α} (h : o.isOk = true) : ∃ a, o = ok a o.state := by
  cases o with
  | ok a s => exact ⟨a, rfl⟩
  | err e s => cases h

theorem eq_err_of_isOk {o : Outcome σ ε α} (h : o.isOk = false) : ∃ e, o = err e o.state := by
  cases o with
  | ok a s => cases h
  | err e s => exact ⟨e, rfl⟩

end Outcome

open Outcome List

/-- A procedure over states `σ` with errors `ε`. -/
def Proc (σ ε α : Type) : Type := σ → Outcome σ ε α

namespace Proc

variable {σ ε α β γ : Type}

instance : Monad (Proc σ ε) where
  pure a := fun s => ok a s
  bind m f := fun s =>
    match m s with
    | ok a s' => f a s'
    | err e s' => err e s'

def fail (e : ε) : Proc σ ε α := fun s => err e s

def read (f : σ → α) : Proc σ ε α := fun s => ok (f s) s

def modify (f : σ → σ) : Proc σ ε Unit := fun s => ok () (f s)

/-- Run `m` and hand its error to the caller as a value. -/
def attempt (m : Proc σ ε α) : Proc σ ε (Except ε α) := fun s =>
  match m s with
  | ok a s' => ok (.ok a) s'
  | err e s' => ok (.error e) s'

/-- Run `m` for its effect; an error is dropped. -/
def ignore (m : Proc σ ε α) : Proc σ ε Unit := fun s => ok () (m s).state

/-- Run `m`; if it fails, run `h` for its effect and return the error of `m`. -/
def onErr (m : Proc σ ε α) (h : Proc σ ε β) : Proc σ ε α := fun s =>
  match m s with
  | ok a s' => ok a s'
  | err e s' => err e (h s').state

/-- Run `m` with its error rewritten by `f`. -/
def mapErr (f : ε → ε) (m : Proc σ ε α) : Proc σ ε α := fun s =>
  match m s with
  | ok a s' => ok a s'
  | err e s' => err (f e) s'

/-- A pure computation that can fail, run as a procedure. -/
def lift : Except ε α → Proc σ ε α
  | .ok a => fun s => ok a s
  | .error e => fun s => err e s

/-- Run `f` on every element, stopping at the first error. -/
def forEach (f : α → Proc σ ε Unit) : List α → Proc σ ε Unit
  | [] => pure ()
  | a :: as => do f a; forEach f as

/-- `forEach` with its error as a value, next to the elements done before it. -/
def forEachDone (f : α → Proc σ ε Unit) : List α → Proc σ ε (List α × Option ε)
  | [] => pure ([], none)
  | a :: as => do
    match ← attempt (f a) with
    | .ok () => do
      let (done, e) ← forEachDone f as
      pure (a :: done, e)
    | .error e => pure ([], some e)

/-! ## Evaluation -/

variable {m : Proc σ ε α} {f : α → Proc σ ε β} {s s' : σ} {a : α} {e : ε} {b : β} {g : ε → ε} {as :
  List α}

@[simp] theorem pure_apply (a : α) (s : σ) : (pure a : Proc σ ε α) s = ok a s := rfl

@[simp] theorem fail_apply (e : ε) (s : σ) : (fail e : Proc σ ε α) s = err e s := rfl

@[simp] theorem read_apply (f : σ → α) (s : σ) : (read f : Proc σ ε α) s = ok (f s) s := rfl

@[simp] theorem modify_apply (f : σ → σ) (s : σ) : (modify f : Proc σ ε Unit) s = ok () (f s) := rfl

@[simp] theorem lift_ok (a : α) (s : σ) : (lift (.ok a) : Proc σ ε α) s = ok a s := rfl

@[simp] theorem ignore_apply (m : Proc σ ε α) (s : σ) : ignore m s = ok () (m s).state := rfl

theorem bind_apply (m : Proc σ ε α) (f : α → Proc σ ε β) (s : σ) :
    (m >>= f) s = match m s with
      | ok a s' => f a s'
      | err e s' => err e s' := rfl

theorem bind_of_ok (h : m s = ok a s') : (m >>= f) s = f a s' := by
  rw [bind_apply, h]

theorem bind_of_err (h : m s = err e s') : (m >>= f) s = err e s' := by
  rw [bind_apply, h]

@[simp] theorem pure_bind (a : α) (f : α → Proc σ ε β) : (pure a >>= f) = f a := rfl

theorem bind_assoc {f : α → Proc σ ε β} {g : β → Proc σ ε γ} :
    (m >>= f) >>= g = m >>= fun a => f a >>= g := by
  funext s
  rw [bind_apply, bind_apply, bind_apply]
  cases m s <;> rfl

@[simp] theorem read_bind (g : σ → α) (f : α → Proc σ ε β) (s : σ) :
    (read g >>= f) s = f (g s) s := rfl

@[simp] theorem ignore_bind (m : Proc σ ε α) (f : Unit → Proc σ ε β) (s : σ) :
    (ignore m >>= f) s = f () (m s).state := rfl

/-! ## Inversion -/

theorem bind_eq_ok : (m >>= f) s = ok b s' ↔ ∃ a s1, m s = ok a s1 ∧ f a s1 = ok b s' := by
  rw [bind_apply]
  cases h : m s with
  | ok a s1 => simp
  | err e s1 => simp

theorem bind_eq_err :
    (m >>= f) s = err e s' ↔
      m s = err e s' ∨ ∃ a s1, m s = ok a s1 ∧ f a s1 = err e s' := by
  rw [bind_apply]
  cases h : m s with
  | ok a s1 => simp
  | err e s1 => simp

/-- What holds of the state a sequence leaves, by how its first part ended. -/
theorem bind_state {Q : σ → Prop}
    (herr : ∀ e s', m s = .err e s' → Q s') (hok : ∀ a s', m s = .ok a s' → Q (f a s').state) :
    Q ((m >>= f) s).state := by
  rw [bind_apply]
  cases h : m s with
  | ok a s' => exact hok a s' h
  | err e s' => exact herr e s' h

theorem except_bind_eq_ok {x : Except ε α} {f : α → Except ε β} :
    (x >>= f) = .ok b ↔ ∃ a, x = .ok a ∧ f a = .ok b := by
  cases x <;> simp [bind, Except.bind]

/-- A loop whose step succeeds on the elements with `P`, and then does `g`. -/
theorem foldlM_eq_ok {step : β → α → Except ε β} {P : α → Prop} {g : β → α → β}
    (h : ∀ b a b', step b a = .ok b' ↔ P a ∧ b' = g b a) :
    ∀ {as : List α} {b b' : β}, as.foldlM step b = .ok b' ↔ (∀ a ∈ as, P a) ∧ b' = as.foldl g b
  | [], b, b' => by simp [pure, Except.pure, eq_comm]
  | a :: as, b, b' => by
    rw [foldlM_cons, except_bind_eq_ok, foldl_cons]
    simp [h, foldlM_eq_ok h, and_assoc]

theorem lift_eq_ok {x : Except ε α} : lift x s = ok a s' ↔ x = .ok a ∧ s = s' := by
  cases x <;> simp [lift]

theorem lift_eq_err {x : Except ε α} : lift x s = err e s' ↔ x = .error e ∧ s = s' := by
  cases x <;> simp [lift]

theorem attempt_eq_ok {r : Except ε α} :
    attempt m s = ok r s' ↔
      (∃ a, r = .ok a ∧ m s = ok a s') ∨ (∃ e, r = .error e ∧ m s = err e s') := by
  unfold attempt
  cases h : m s with
  | ok a s1 => simp [eq_comm]
  | err e s1 => simp [eq_comm]

theorem ignore_eq_ok {u : Unit} :
    ignore m s = ok u s' ↔ (∃ a, m s = ok a s') ∨ ∃ e, m s = err e s' := by
  rw [ignore_apply]
  cases h : m s <;> simp

theorem onErr_eq_ok {h : Proc σ ε β} : onErr m h s = ok a s' ↔ m s = ok a s' := by
  unfold onErr
  cases m s <;> simp

theorem onErr_eq_err {h : Proc σ ε β} :
    onErr m h s = err e s' ↔ ∃ s1, m s = err e s1 ∧ s' = (h s1).state := by
  unfold onErr
  cases hm : m s with
  | ok a s1 => simp
  | err e1 s1 =>
    simp [and_assoc, eq_comm]

theorem mapErr_eq_ok : mapErr g m s = ok a s' ↔ m s = ok a s' := by
  unfold mapErr
  cases m s <;> simp

theorem mapErr_eq_err : mapErr g m s = err e s' ↔ ∃ e1, m s = err e1 s' ∧ g e1 = e := by
  unfold mapErr
  cases hm : m s with
  | ok a s1 => simp
  | err e1 s1 =>
    simp [and_assoc, and_comm]

@[simp] theorem mapErr_state (g : ε → ε) (m : Proc σ ε α) (s : σ) :
    (mapErr g m s).state = (m s).state := by
  unfold mapErr
  cases m s <;> rfl

@[simp] theorem attempt_state (m : Proc σ ε α) (s : σ) : (attempt m s).state = (m s).state := by
  unfold attempt
  cases m s <;> rfl

@[simp] theorem forEach_nil (f : α → Proc σ ε Unit) (s : σ) : forEach f [] s = ok () s := rfl

theorem forEach_cons (f : α → Proc σ ε Unit) (a : α) (as : List α) :
    forEach f (a :: as) = (f a >>= fun _ => forEach f as) := rfl

theorem forEach_of_ok {f : α → Proc σ ε Unit} {g : α → σ → σ} :
    ∀ {as : List α} {s : σ}, (∀ a ∈ as, ∀ s, f a s = ok () (g a s)) →
      forEach f as s = ok () (as.foldl (fun s a => g a s) s)
  | [], s, _ => rfl
  | a :: as, s, h => by
    rw [forEach_cons, bind_of_ok (h a (mem_cons_self ..) s), foldl_cons]
    exact forEach_of_ok fun b hb => h b (mem_cons_of_mem _ hb)

theorem forEachDone_of_ok {f : α → Proc σ ε Unit} :
    ∀ {as : List α} {s s' : σ}, forEach f as s = ok () s' → forEachDone f as s = ok (as, none) s'
  | [], _, _, h => by
    cases h
    rfl
  | a :: as, s, s', h => by
    obtain ⟨_, s1, h1, h2⟩ := bind_eq_ok.1 h
    have hdone := forEachDone_of_ok h2
    simp only [forEachDone, attempt, bind_apply, h1, hdone, pure_apply]

theorem forEachDone_of_err {f : α → Proc σ ε Unit} :
    ∀ {as : List α} {s s' : σ} {e : ε}, forEach f as s = err e s' →
      ∃ done, forEachDone f as s = ok (done, some e) s'
  | a :: as, s, s', e, h => by
    rcases bind_eq_err.1 h with h1 | ⟨_, s1, h1, h2⟩
    · exact ⟨[], by simp only [forEachDone, attempt, bind_apply, h1, pure_apply]⟩
    · obtain ⟨done, hdone⟩ := forEachDone_of_err h2
      exact ⟨a :: done, by simp only [forEachDone, attempt, bind_apply, h1, hdone, pure_apply]⟩

/-! ## Relating the first and the last state -/

/-- Every run of `m` relates the state it starts from to the state it leaves. -/
def Keeps (R : σ → σ → Prop) (m : Proc σ ε α) : Prop := ∀ s, R s (m s).state

namespace Keeps

variable {R : σ → σ → Prop}

theorem ok (h : Keeps R m) (hm : m s = .ok a s') : R s s' := by
  simpa [hm] using h s

theorem err (h : Keeps R m) (hm : m s = .err e s') : R s s' := by
  simpa [hm] using h s

section Rules

variable [Std.Refl R]

theorem pure (a : α) : Keeps (ε := ε) R (Pure.pure a) := fun s => refl_of R s

theorem fail (e : ε) : Keeps (α := α) R (Proc.fail e) := fun s => refl_of R s

theorem read (f : σ → α) : Keeps (ε := ε) R (Proc.read f) := fun s => refl_of R s

theorem lift (x : Except ε α) : Keeps R (Proc.lift x) := by
  intro s
  cases x <;> exact refl_of R s

end Rules

/-- A sequence from one state. -/
theorem bind_at [IsTrans σ R] (hm : R s (m s).state)
    (hf : ∀ a s', m s = .ok a s' → R s' (f a s').state) : R s ((m >>= f) s).state := by
  rw [bind_apply]
  cases h : m s with
  | ok a s1 =>
    rw [h] at hm
    exact trans_of R hm (hf a s1 h)
  | err e s1 =>
    rw [h] at hm
    exact hm

/-- The second part of a sequence may rely on what every value of the first satisfies. -/
theorem bind_of [IsTrans σ R] {P : α → Prop}
    (hm : Keeps R m) (hP : ∀ s a s', m s = .ok a s' → P a) (hf : ∀ a, P a → Keeps R (f a)) :
    Keeps R (m >>= f) := fun s => bind_at (hm s) fun a s' h => hf a (hP s a s' h) s'

theorem bind [IsTrans σ R] (hm : Keeps R m) (hf : ∀ a, Keeps R (f a)) : Keeps R (m >>= f) :=
  hm.bind_of (P := fun _ => True) (fun _ _ _ _ => trivial) fun a _ => hf a

theorem attempt (hm : Keeps R m) : Keeps R (Proc.attempt m) := by
  intro s
  rw [attempt_state]
  exact hm s

theorem ignore (hm : Keeps R m) : Keeps R (Proc.ignore m) := fun s => hm s

theorem onErr [IsTrans σ R] {c : Proc σ ε β} (hm : Keeps R m) (hc : Keeps R c) :
    Keeps R (Proc.onErr m c) := by
  intro s
  unfold Proc.onErr
  cases h : m s with
  | ok a s1 => exact hm.ok h
  | err e s1 => exact trans_of R (hm.err h) (hc s1)

theorem mapErr (hm : Keeps R m) : Keeps R (Proc.mapErr g m) := by
  intro s
  rw [mapErr_state]
  exact hm s

theorem ite {c : Prop} [Decidable c] {n : Proc σ ε α} (hm : Keeps R m) (hn : Keeps R n) :
    Keeps R (if c then m else n) := by
  split <;> assumption

theorem forEach [Std.Refl R] [IsTrans σ R] {f : α → Proc σ ε Unit} :
    ∀ {as : List α}, (∀ a ∈ as, Keeps R (f a)) → Keeps R (Proc.forEach f as)
  | [], _ => pure ()
  | a :: _, h =>
    bind (h a (mem_cons_self ..)) fun _ =>
      forEach fun b hb => h b (mem_cons_of_mem _ hb)

/-- A stronger relation keeps more. -/
theorem mono {R' : σ → σ → Prop} (hm : Keeps R m)
    (h : ∀ s s', R s s' → R' s s') : Keeps R' m := fun s => h s _ (hm s)

end Keeps

/-! ## Parts of the state a procedure does not look at -/

/-- `m` does not see the change `g` of the state and carries it along. -/
def Commutes (g : σ → σ) (m : Proc σ ε α) : Prop := ∀ s, m (g s) = (m s).mapState g

namespace Commutes

variable {g : σ → σ}

theorem ok (hm : Commutes g m) (h : m s = .ok a s') : m (g s) = .ok a (g s') := by
  rw [hm s, h]
  rfl

theorem err (hm : Commutes g m) (h : m s = .err e s') : m (g s) = .err e (g s') := by
  rw [hm s, h]
  rfl

theorem state (hm : Commutes g m) (s : σ) : (m (g s)).state = g (m s).state := by
  rw [hm s]
  cases m s <;> rfl

theorem pure (a : α) : Commutes (ε := ε) g (Pure.pure a) := fun _ => rfl

theorem bind (hm : Commutes g m) (hf : ∀ a, Commutes g (f a)) : Commutes g (m >>= f) := by
  intro s
  cases h : m s with
  | ok a s1 => rw [bind_of_ok (hm.ok h), bind_of_ok h, hf a s1]
  | err e s1 =>
    rw [bind_of_err (hm.err h), bind_of_err h]
    rfl

theorem ignore (hm : Commutes g m) : Commutes g (Proc.ignore m) := by
  intro s
  exact congrArg (Outcome.ok ()) (hm.state s)

theorem mapErr {f : ε → ε} (hm : Commutes g m) : Commutes g (Proc.mapErr f m) := by
  intro s
  unfold Proc.mapErr
  cases h : m s with
  | ok a s1 =>
    rw [hm.ok h]
    rfl
  | err e s1 =>
    rw [hm.err h]
    rfl

theorem onErr {c : Proc σ ε β} (hm : Commutes g m) (hc : Commutes g c) :
    Commutes g (Proc.onErr m c) := by
  intro s
  unfold Proc.onErr
  cases h : m s with
  | ok a s1 =>
    rw [hm.ok h]
    rfl
  | err e s1 =>
    rw [hm.err h]
    exact congrArg (Outcome.err e) (hc.state s1)

theorem forEach {f : α → Proc σ ε Unit} (hf : ∀ a, Commutes g (f a)) :
    ∀ as : List α, Commutes g (Proc.forEach f as)
  | [] => pure ()
  | a :: as => (hf a).bind fun _ => forEach hf as

end Commutes

/-! ## Journals

A journal is a list in the state that procedures only extend at the front. A run that leaves it as
it was met no event worth recording. -/

section Journal

variable {κ : Type} {log : σ → List κ}

/-- The journal of the second state extends that of the first. -/
def Extends (log : σ → List κ) (s s' : σ) : Prop := log s <:+ log s'

instance : Std.Refl (Extends log) := ⟨fun _ => List.suffix_refl _⟩

instance : IsTrans σ (Extends log) := ⟨fun _ _ _ h h' => List.IsSuffix.trans h h'⟩

/-- The run of `m` from `s` leaves the journal as it was. -/
def Quiet (log : σ → List κ) (m : Proc σ ε α) (s : σ) : Prop := log (m s).state = log s

instance [DecidableEq κ] : Decidable (Quiet log m s) := inferInstanceAs (Decidable (_ = _))

/-- Nothing is recorded between two states if nothing is recorded around them. -/
theorem Extends.eq_of_eq {s1 s2 s3 : σ} (h1 : Extends log s1 s2) (h2 : Extends log s2 s3)
    (h : log s3 = log s1) : log s2 = log s1 ∧ log s3 = log s2 := by
  have h12 : log s1 = log s2 := by
    refine IsSuffix.eq_of_length_le h1 ?_
    rw [← h]
    exact IsSuffix.length_le h2
  exact ⟨h12.symm, h.trans h12⟩

theorem Quiet.bind {s1 : σ}
    (h : Quiet log (m >>= f) s) (hm : Keeps (Extends log) m) (hf : Keeps (Extends log) (f a))
    (hs : m s = ok a s1) : log s1 = log s ∧ Quiet log (f a) s1 := by
  unfold Quiet at h ⊢
  rw [bind_of_ok hs] at h
  exact Extends.eq_of_eq (hm.ok hs) (hf s1) h

theorem Quiet.left (h : Quiet log (m >>= f) s)
    (hm : Keeps (Extends log) m) (hf : ∀ a, Keeps (Extends log) (f a)) : Quiet log m s := by
  cases hs : m s with
  | ok a s1 =>
    unfold Quiet
    rw [hs]
    exact (h.bind hm (hf a) hs).1
  | err e s1 =>
    unfold Quiet at h ⊢
    rw [bind_of_err hs] at h
    rwa [hs]

theorem Quiet.split (h : Quiet log (m >>= f) s) (hm : Keeps (Extends log) m)
    (hf : ∀ a, Keeps (Extends log) (f a)) :
    Quiet log m s ∧ ∀ {a s1}, m s = ok a s1 → Quiet log (f a) s1 :=
  ⟨h.left hm hf, fun hs => (h.bind hm (hf _) hs).2⟩

theorem Quiet.of_mapErr (h : Quiet log (Proc.mapErr g m) s) : Quiet log m s := by
  unfold Quiet Proc.mapErr at *
  cases hs : m s <;> rw [hs] at h <;> exact h

theorem Quiet.of_attempt (h : Quiet log (Proc.attempt m) s) : Quiet log m s := by
  unfold Quiet Proc.attempt at *
  cases hs : m s <;> rw [hs] at h <;> exact h

/-- A quiet sequence whose first part hands its error over is quiet in both parts. -/
theorem Quiet.attempt_bind {f : Except ε α → Proc σ ε β}
    (h : Quiet log (Proc.attempt m >>= f) s) (hm : Keeps (Extends log) m)
    (hf : ∀ r, Keeps (Extends log) (f r)) :
    Quiet log m s ∧ ∀ a s1, m s = ok a s1 →
      Quiet log (f (.ok a)) s1 ∧ (Proc.attempt m >>= f) s = f (.ok a) s1 := by
  refine ⟨(h.left hm.attempt hf).of_attempt, fun a s1 hok => ?_⟩
  have hat : Proc.attempt m s = ok (.ok a) s1 := attempt_eq_ok.2 (Or.inl ⟨a, rfl, hok⟩)
  exact ⟨(h.bind hm.attempt (hf _) hat).2, bind_of_ok hat⟩

theorem Quiet.of_onErr {c : Proc σ ε β} (h : Quiet log (Proc.onErr m c) s)
    (hm : Keeps (Extends log) m) (hc : Keeps (Extends log) c) : Quiet log m s := by
  unfold Quiet Proc.onErr at *
  cases hs : m s with
  | ok a s1 =>
    rw [hs] at h
    exact h
  | err e s1 =>
    rw [hs] at h
    exact (Extends.eq_of_eq (hm.err hs) (hc s1) h).1

/-- If one event is recorded by a step and one in all, the rest of the run is quiet. -/
theorem Extends.eq_of_cons {s1 s2 s3 : σ} {c c' : κ} (h1 : log s2 = c' :: log s1)
    (h2 : Extends log s2 s3) (h : log s3 = c :: log s1) : c' = c ∧ log s3 = log s2 := by
  have heq : log s2 = log s3 := by
    refine IsSuffix.eq_of_length_le h2 ?_
    rw [h, h1, length_cons, length_cons]
  refine ⟨?_, heq.symm⟩
  rw [h1, h] at heq
  exact (cons.inj heq).1

/-- If an event is recorded in the middle of a run and only one in all, the run is quiet before it
and after it. -/
theorem Extends.single {s1 s2 s3 s4 : σ} {c c' : κ} (h1 : Extends log s1 s2)
    (h2 : log s3 = c' :: log s2) (h3 : Extends log s3 s4) (h : log s4 = c :: log s1) :
    log s2 = log s1 ∧ c' = c ∧ log s4 = log s3 := by
  have hlen : (log s2).length ≤ (log s1).length := by
    have := IsSuffix.length_le h3
    rw [h2, h, length_cons, length_cons] at this
    omega
  have h12 : log s1 = log s2 := IsSuffix.eq_of_length_le h1 hlen
  rw [← h12] at h2
  exact ⟨h12.symm, Extends.eq_of_cons h2 h3 h⟩

/-- A procedure that only extends the journal and never fails without writing to it. -/
structure Journaled (log : σ → List κ) (m : Proc σ ε α) : Prop where
  extend : Keeps (Extends log) m
  record : ∀ s e s', m s = err e s' → log s' ≠ log s

namespace Journaled

theorem isOk (hm : Journaled log m) (h : Quiet log m s) :
    ∃ a s', m s = ok a s' ∧ log s' = log s := by
  unfold Quiet at h
  cases hs : m s with
  | ok a s' =>
    rw [hs] at h
    exact ⟨a, s', rfl, h⟩
  | err e s' =>
    rw [hs] at h
    exact absurd h (hm.record s e s' hs)

theorem step (hm : Journaled log m) (h : Quiet log (m >>= f) s)
    (hf : ∀ a, Keeps (Extends log) (f a)) : ∃ a s1, m s = ok a s1 ∧ Quiet log (f a) s1 := by
  obtain ⟨hq, hnext⟩ := h.split hm.extend hf
  obtain ⟨a, s1, hs, -⟩ := hm.isOk hq
  exact ⟨a, s1, hs, hnext hs⟩

theorem pure (a : α) : Journaled (ε := ε) log (Pure.pure a) :=
  ⟨Keeps.pure a, fun s e s' h => by cases h⟩

theorem read (f : σ → α) : Journaled (ε := ε) log (Proc.read f) :=
  ⟨Keeps.read f, fun s e s' h => by cases h⟩

theorem attempt (hm : Keeps (Extends log) m) : Journaled log (Proc.attempt m) := by
  refine ⟨hm.attempt, fun s e s' h => ?_⟩
  unfold Proc.attempt at h
  cases hs : m s <;> rw [hs] at h <;> cases h

/-- The second part of a sequence may rely on what a quiet first part gives. -/
theorem bind_of {P : α → Prop} (hm : Journaled log m)
    (hP : ∀ s a s', m s = ok a s' → log s' = log s → P a)
    (hext : ∀ a, Keeps (Extends log) (f a)) (hf : ∀ a, P a → Journaled log (f a)) :
    Journaled log (m >>= f) := by
  refine ⟨hm.extend.bind hext, fun s e s' h heq => ?_⟩
  rcases bind_eq_err.1 h with h | ⟨a, s1, h1, h2⟩
  · exact hm.record s e s' h heq
  · have := Extends.eq_of_eq (hm.extend.ok h1) ((hext a).err h2) heq
    exact (hf a (hP s a s1 h1 this.1)).record s1 e s' h2 this.2

theorem bind (hm : Journaled log m) (hf : ∀ a, Journaled log (f a)) : Journaled log (m >>= f) :=
  hm.bind_of (P := fun _ => True) (fun _ _ _ _ _ => trivial) (fun a => (hf a).extend)
    fun a _ => hf a

theorem ignore (hm : Keeps (Extends log) m) : Journaled log (Proc.ignore m) :=
  ⟨hm.ignore, fun s e s' h => by cases h⟩

theorem mapErr (hm : Journaled log m) : Journaled log (Proc.mapErr g m) := by
  refine ⟨hm.extend.mapErr, fun s e s' h => ?_⟩
  obtain ⟨e1, h1, -⟩ := mapErr_eq_err.1 h
  exact hm.record s e1 s' h1

theorem onErr {c : Proc σ ε β} (hm : Journaled log m)
    (hc : Keeps (Extends log) c) : Journaled log (Proc.onErr m c) := by
  refine ⟨hm.extend.onErr hc, fun s e s' h heq => ?_⟩
  obtain ⟨s1, h1, rfl⟩ := onErr_eq_err.1 h
  exact hm.record s e s1 h1 (Extends.eq_of_eq (hm.extend.err h1) (hc s1) heq).1

theorem ite {c : Prop} [Decidable c] {n : Proc σ ε α} (hm : Journaled log m)
    (hn : Journaled log n) : Journaled log (if c then m else n) := by
  split <;> assumption

theorem forEach {f : α → Proc σ ε Unit} :
    ∀ {as : List α}, (∀ a ∈ as, Journaled log (f a)) → Journaled log (Proc.forEach f as)
  | [], _ => pure ()
  | a :: _, h =>
    bind (h a (mem_cons_self ..)) fun _ =>
      forEach fun b hb => h b (mem_cons_of_mem _ hb)

end Journaled

end Journal

end Proc

end Fallible
