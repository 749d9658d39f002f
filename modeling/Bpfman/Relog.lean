import Bpfman.ExecutorProof

/-!
# The log is write-only

No procedure reads the log of failed primitives. A run from a world with a longer log does the same,
and its log is longer by the same calls (`Proc.Commutes (World.relog t)`). So what a retry does
after a failure can be read off a run that starts without one.
-/

namespace Bpfman

open Fallible Proc World

variable {α : Type} {e : Env} {c : Call} {w w' : World} {key : Key} {r : Nat} {t : List Call}

/-- The world with the log `l`. -/
def World.withLog (w : World) (l : List Call) : World := { w with failed := l }

/-- **A quiet run does not depend on the log** it started with. -/
theorem ok_withLog {m : M α} (hm : ∀ t, Commutes (relog · t) m) {a : α}
    (h : m w = .ok a w') (hq : w'.failed = w.failed) (l : List Call) :
    m (w.withLog l) = .ok a (w'.withLog l) := by
  have hw : (w.withLog []).relog w.failed = w := rfl
  cases h0 : m (w.withLog []) with
  | ok a0 w0 =>
    have h1 : m ((w.withLog []).relog w.failed) = .ok a0 (w0.relog w.failed) := (hm w.failed).ok h0
    rw [hw, h] at h1
    obtain ⟨rfl, rfl⟩ := Outcome.ok.inj h1
    have hnil : w0.failed = [] := List.append_left_eq_self.1 hq
    have h2 := (hm l).ok h0
    have hl : w0.relog l = (w0.relog w.failed).withLog l := by
      unfold relog withLog
      rw [hnil]
      rfl
    rw [← hl]
    exact h2
  | err er w0 =>
    have h1 : m ((w.withLog []).relog w.failed) = .err er (w0.relog w.failed) :=
      (hm w.failed).err h0
    rw [hw, h] at h1
    cases h1

theorem commutes_primErr {f : World → Except Err (α × World)}
    (hf : ∀ w, f (w.relog t) = (f w).map fun x => (x.1, x.2.relog t)) :
    Commutes (relog · t) (primErr e c f) := by
  intro w
  unfold primErr
  cases hc : e.fails c with
  | true => rfl
  | false =>
    rw [hf]
    cases f w <;> rfl

/-! ## The rebuild -/

theorem commutes_replaceDispatcherSnapshot (spec : DispatcherSnapshotSpec) :
    Commutes (relog · t) (replaceDispatcherSnapshot e spec) := by
  refine commutes_primErr fun w => ?_
  rw [show (w.relog t).store = w.store from rfl]
  cases w.store.replaceDispatcherSnapshot e.now spec <;> rfl

/-- The part of a rebuild after the new dispatcher is loaded and pinned. -/
def RebuildPlan.rest (e : Env) (p : RebuildPlan) (id : ProgramID) :
    M (DispatcherSnapshot × List AttachedExt) := do
  let attached ← attachExtensions e p.key p.revision p.attachText (p.cleanup e) p.slots 0 []
  let runtime ← onErr (p.swap.swap id) (p.cleanup e attached)
  let completed ← onErr
    (replaceDispatcherSnapshot e ⟨p.key, p.revision, runtime, dispatcherMembers p.slots attached⟩)
    (do p.swap.restore runtime; p.cleanup e attached)
  pure (completed, attached)

theorem RebuildPlan.commutes_rest {p : RebuildPlan} (hp : p.Local) (id : ProgramID) :
    Commutes (relog · t) (p.rest e id) :=
  ((adapts_attachExtensions hp.adapts_cleanup _ _ _).unread t).bind fun attached =>
    (((hp.swap.adapts.swap _).onErr (hp.adapts_cleanup attached)).unread t).bind fun rt =>
      ((commutes_replaceDispatcherSnapshot _).onErr (((hp.swap.adapts.restore rt).bind fun _ =>
        hp.adapts_cleanup attached).unread t)).bind fun _ => .pure _

end Bpfman
