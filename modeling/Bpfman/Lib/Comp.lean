import Mathlib.Tactic.Common

/-!
# Computations that may stop

A computation over a state ends in a value or an error, or it stops for a reason that no caller can
handle (`Res.stop`): it ran out of fuel, or it crashed. Each way it leaves a state.

Main rules:
* `bind_eq_ok`: what a sequence that returned did.
* `Compositional Q`: a judgement that composes along `bind`.
* `Leaves R`, `Reads view`, `ReadsUntil view ticks`: three of them. What a computation that returns
  does to the state; that it only reads the state, so that it returns the same again; and that it
  only reads until it raises a counter.
-/

namespace Partiality

/-- How a computation ended. -/
inductive Res (η σ ε α : Type) where
  | ok (a : α) (s : σ)
  | err (e : ε) (s : σ)
  | stop (r : η) (s : σ)

/-- The state at the end. -/
def Res.state {η σ ε α : Type} : Res η σ ε α → σ
  | .ok _ s | .err _ s | .stop _ s => s

/-- A computation over states `σ` with errors `ε`, stopped for reasons `η`. -/
def Comp (η σ ε α : Type) : Type := σ → Res η σ ε α

namespace Comp

variable {η σ τ ε α β : Type}

instance : Monad (Comp η σ ε) where
  pure a := fun s => .ok a s
  bind m f := fun s =>
    match m s with
    | .ok a s' => f a s'
    | .err e s' => .err e s'
    | .stop r s' => .stop r s'

def fail (e : ε) : Comp η σ ε α := fun s => .err e s

def stop (r : η) : Comp η σ ε α := fun s => .stop r s

def read (f : σ → α) : Comp η σ ε α := fun s => .ok (f s) s

def modify (f : σ → σ) : Comp η σ ε Unit := fun s => .ok () (f s)

def lift : Except ε α → Comp η σ ε α
  | .ok a => fun s => .ok a s
  | .error e => fun s => .err e s

/-- Run `m` and hand its error to the caller as a value. -/
def attempt (m : Comp η σ ε α) : Comp η σ ε (Except ε α) := fun s =>
  match m s with
  | .ok a s' => .ok (.ok a) s'
  | .err e s' => .ok (.error e) s'
  | .stop r s' => .stop r s'

/-- Run `m` with its error rewritten by `f`. -/
def mapErr (f : ε → ε) (m : Comp η σ ε α) : Comp η σ ε α := fun s =>
  match m s with
  | .ok a s' => .ok a s'
  | .err e s' => .err (f e) s'
  | .stop r s' => .stop r s'

/-- Run `m` on a part of the state. -/
def zoom (get : τ → σ) (set : τ → σ → τ) (m : Comp η σ ε α) : Comp η τ ε α := fun t =>
  match m (get t) with
  | .ok a s => .ok a (set t s)
  | .err e s => .err e (set t s)
  | .stop r s => .stop r (set t s)

/-! ## Evaluation -/

variable {m : Comp η σ ε α} {f : α → Comp η σ ε β} {s s' : σ} {a : α} {e : ε} {b : β}

@[simp] theorem pure_apply (a : α) (s : σ) : (pure a : Comp η σ ε α) s = .ok a s := rfl

@[simp] theorem fail_apply (e : ε) (s : σ) : (fail e : Comp η σ ε α) s = .err e s := rfl

@[simp] theorem read_apply (f : σ → α) (s : σ) : (read f : Comp η σ ε α) s = .ok (f s) s := rfl

@[simp] theorem modify_apply (f : σ → σ) (s : σ) :
    (modify f : Comp η σ ε Unit) s = .ok () (f s) := rfl

theorem bind_apply (m : Comp η σ ε α) (f : α → Comp η σ ε β) (s : σ) :
    (m >>= f) s = match m s with
      | .ok a s' => f a s'
      | .err e s' => .err e s'
      | .stop r s' => .stop r s' := rfl

instance : LawfulMonad (Comp η σ ε) := by
  refine .mk' _ (fun m => funext fun s => ?_) (fun _ _ => rfl) fun m f g => funext fun s => ?_
  · show (m >>= fun a => pure (id a)) s = m s
    rw [bind_apply]
    cases m s <;> rfl
  · rw [bind_apply, bind_apply, bind_apply]
    cases m s <;> rfl

theorem bind_of_ok (h : m s = .ok a s') : (m >>= f) s = f a s' := by
  rw [bind_apply, h]

theorem bind_of_err (h : m s = .err e s') : (m >>= f) s = .err e s' := by
  rw [bind_apply, h]

theorem bind_of_stop {r : η} (h : m s = .stop r s') : (m >>= f) s = .stop r s' := by
  rw [bind_apply, h]

/-! ## Inversion -/

theorem bind_eq_ok : (m >>= f) s = .ok b s' ↔ ∃ a s1, m s = .ok a s1 ∧ f a s1 = .ok b s' := by
  rw [bind_apply]
  cases h : m s <;> simp

theorem lift_eq_ok {x : Except ε α} :
    (lift x : Comp η σ ε α) s = .ok a s' ↔ x = .ok a ∧ s = s' := by
  cases x <;> simp [lift]

theorem attempt_eq_ok {r : Except ε α} :
    attempt m s = .ok r s' ↔
      (∃ a, r = .ok a ∧ m s = .ok a s') ∨ (∃ e, r = .error e ∧ m s = .err e s') := by
  unfold attempt
  cases h : m s <;> simp [eq_comm]

theorem mapErr_eq_ok {g : ε → ε} : mapErr g m s = .ok a s' ↔ m s = .ok a s' := by
  unfold mapErr
  cases m s <;> simp

/-! ## Judgements -/

/-- A judgement on computations that holds of pure results and composes. -/
structure Compositional (Q : ∀ α : Type, Comp η σ ε α → Prop) : Prop where
  lift : ∀ {α} (x : Except ε α), Q α (lift x)
  bind : ∀ {α β} {m : Comp η σ ε α} {f : α → Comp η σ ε β}, Q α m → (∀ a, Q β (f a)) → Q β (m >>= f)
  mapErr : ∀ {α} {m : Comp η σ ε α}, Q α m → ∀ g, Q α (mapErr g m)

namespace Compositional

variable {Q : ∀ α : Type, Comp η σ ε α → Prop}

theorem pure (h : Compositional Q) (a : α) : Q α (pure a) := h.lift (.ok a)

theorem fail (h : Compositional Q) (e : ε) : Q α (fail e) := h.lift (.error e)

end Compositional

/-- If `m` returns, the last state is related by `R` to the first. -/
def Leaves (R : σ → σ → Prop) (m : Comp η σ ε α) : Prop := ∀ s a s', m s = .ok a s' → R s s'

theorem compositional_leaves {R : σ → σ → Prop} (hrefl : ∀ s, R s s)
    (htrans : ∀ {a b c}, R a b → R b c → R a c) :
    Compositional fun (α : Type) (m : Comp η σ ε α) => Leaves R m where
  lift x s a s' h := by
    obtain ⟨-, rfl⟩ := lift_eq_ok.1 h
    exact hrefl s
  bind hm hf s b s' h := by
    obtain ⟨a, s1, h1, h2⟩ := bind_eq_ok.1 h
    exact htrans (hm s a s1 h1) (hf a s1 b s' h2)
  mapErr hm g s a s' h := hm s a s' (mapErr_eq_ok.1 h)

/-! ## Computations that only read -/

/-- `m` reads the state through `view` and changes nothing: it returns or fails. -/
def Reads {ρ : Type} (view : σ → ρ) (m : Comp η σ ε α) : Prop :=
  ∃ f : ρ → Except ε α, ∀ s, m s = lift (f (view s)) s

namespace Reads

variable {ρ : Type} {view : σ → ρ}

theorem lift (x : Except ε α) : Reads view (lift x : Comp η σ ε α) := ⟨fun _ => x, fun _ => rfl⟩

theorem bind (hm : Reads view m) (hf : ∀ a, Reads view (f a)) : Reads view (m >>= f) := by
  obtain ⟨x, hx⟩ := hm
  choose y hy using hf
  refine ⟨fun r => x r >>= fun a => y a r, fun s => ?_⟩
  show _ = Comp.lift (x (view s) >>= fun a => y a (view s)) s
  rw [bind_apply, hx]
  cases x (view s) with
  | error e => rfl
  | ok a => exact hy a s

theorem mapErr (hm : Reads view m) (g : ε → ε) : Reads view (mapErr g m) := by
  obtain ⟨x, hx⟩ := hm
  refine ⟨fun r => (x r).mapError g, fun s => ?_⟩
  show _ = Comp.lift ((x (view s)).mapError g) s
  unfold Comp.mapErr
  rw [hx]
  cases x (view s) with
  | error e => rfl
  | ok a => rfl

theorem compositional : Compositional fun (α : Type) (m : Comp η σ ε α) => Reads view m where
  lift := lift
  bind := bind
  mapErr := mapErr

theorem state_eq (hm : Reads view m) (h : m s = .ok a s') : s' = s := by
  obtain ⟨x, hx⟩ := hm
  rw [hx, lift_eq_ok] at h
  exact h.2.symm

/-- Run again from a state that looks the same, it returns the same. -/
theorem again (hm : Reads view m) {t : σ} (h : m s = .ok a s')
    (ht : view t = view s) : m t = .ok a t := by
  obtain ⟨x, hx⟩ := hm
  rw [hx, lift_eq_ok] at h
  rw [hx, ht, h.1]
  rfl

end Reads

/-! ## Computations that read until they act -/

/-- As long as `m` does not raise `ticks`, it reads the state through `view` and changes nothing;
what it reads decides whether it does; and `ticks` never falls. -/
structure ReadsUntil {ρ : Type} (view : σ → ρ) (ticks : σ → Nat) (m : Comp η σ ε α) : Prop where
  mono : ∀ s, ticks s ≤ ticks (m s).state
  alike : ∀ s t, view t = view s → (∃ x : Except ε α, m s = lift x s ∧ m t = lift x t) ∨
    (ticks s < ticks (m s).state ∧ ticks t < ticks (m t).state)

theorem lift_state (x : Except ε α) (s : σ) : (lift x s : Res η σ ε α).state = s := by
  cases x <;> rfl

theorem ticks_le_bind {ticks : σ → Nat} (hf : ∀ a s, ticks s ≤ ticks (f a s).state) (s : σ) :
    ticks (m s).state ≤ ticks ((m >>= f) s).state := by
  rw [bind_apply]
  cases m s with
  | ok a s' => exact hf a s'
  | err e s' => exact Nat.le_refl _
  | stop r s' => exact Nat.le_refl _

namespace ReadsUntil

variable {ρ : Type} {view : σ → ρ} {ticks : σ → Nat}

theorem of_reads (hm : Reads view m) : ReadsUntil view ticks m := by
  obtain ⟨x, hx⟩ := hm
  refine ⟨fun s => Nat.le_of_eq ?_, fun s t h => .inl ⟨x (view s), hx s, by rw [hx, h]⟩⟩
  rw [hx, lift_state]

theorem bind (hm : ReadsUntil view ticks m) (hf : ∀ a, ReadsUntil view ticks (f a)) :
    ReadsUntil view ticks (m >>= f) where
  mono s := Nat.le_trans (hm.mono s) (ticks_le_bind (fun a => (hf a).mono) s)
  alike s t h := by
    rcases hm.alike s t h with ⟨_ | a, hs, ht⟩ | ⟨hs, ht⟩
    · exact .inl ⟨.error _, bind_of_err hs, bind_of_err ht⟩
    · rw [bind_of_ok hs, bind_of_ok ht]
      exact (hf a).alike s t h
    · have hrest : ∀ s, ticks (m s).state ≤ ticks ((m >>= f) s).state :=
        ticks_le_bind fun a => (hf a).mono
      exact .inr ⟨Nat.lt_of_lt_of_le hs (hrest s), Nat.lt_of_lt_of_le ht (hrest t)⟩

theorem mapErr_state (g : ε → ε) (s : σ) : (mapErr g m s).state = (m s).state := by
  unfold Comp.mapErr
  cases m s <;> rfl

theorem mapErr (hm : ReadsUntil view ticks m) (g : ε → ε) : ReadsUntil view ticks (mapErr g m) where
  mono s := by
    rw [mapErr_state]
    exact hm.mono s
  alike s t h := by
    rw [mapErr_state, mapErr_state]
    refine (hm.alike s t h).imp_left fun ⟨x, hs, ht⟩ => ⟨x.mapError g, ?_, ?_⟩
    · unfold Comp.mapErr
      rw [hs]
      cases x <;> rfl
    · unfold Comp.mapErr
      rw [ht]
      cases x <;> rfl

theorem compositional :
    Compositional fun (α : Type) (m : Comp η σ ε α) => ReadsUntil view ticks m where
  lift x := of_reads (Reads.lift x)
  bind := bind
  mapErr := mapErr

/-- A computation that returned and does not raise the counter from a state that looks the same
returns the same again. -/
theorem again (hm : ReadsUntil view ticks m) {t : σ} (h : m s = .ok a s') (ht : view t = view s)
    (hn : ¬ ticks t < ticks (m t).state) : m t = .ok a t := by
  rcases hm.alike s t ht with ⟨x, hs, hx⟩ | ⟨-, htick⟩
  · rw [h] at hs
    obtain ⟨rfl, -⟩ := lift_eq_ok.1 hs.symm
    exact hx
  · exact absurd htick hn

end ReadsUntil

end Comp

end Partiality
