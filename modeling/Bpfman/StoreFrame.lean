import Bpfman.AttachTCX
import Bpfman.Release

/-!
# What leaves the store alone

The rebuild of a dispatcher loads, pins and attaches before it writes its snapshot, and takes all of
that back if the write fails. None of it but the write concerns the store.

* `rebuildDispatcher_store` — the store is as it was, or has the snapshot.
-/

namespace Bpfman

open Fallible Proc

variable {e : Env} {w w' : World} {key : Key} {r : Nat} {netns : String}

/-! ## The rebuild -/

section Rebuild

variable {p : RebuildPlan}

/-- **A rebuild** leaves the store as it was, or with its snapshot. -/
theorem rebuildDispatcher_store (hp : p.Local) (w : World) :
    (rebuildDispatcher e p w).state.store = w.store ∨
      ∃ rt, Recorded e p rt w.store (rebuildDispatcher e p w).state.store := by
  have hclean := hp.adapts_cleanup (e := e)
  cases h : rebuildDispatcher e p w with
  | ok res w' =>
    obtain ⟨completed, attached⟩ := res
    obtain ⟨ps, rt, w3, s', -, -, -, hsw, hst, rfl⟩ := rebuildDispatcher_eq_ok h
    have hsame := (hp.swap.adapts.swap _).store.ok hsw
    rw [show w3.store = w.store from hsame] at hst
    exact Or.inr ⟨rt, completed, hst⟩
  | err err w' =>
    refine Or.inl ?_
    have hload := (adapts_loadAndPinDispatcher (e := e) p.config
      (.dispatcher p.key p.revision)).store.mapErr (g := .wrap p.loadText)
    have hattach : Keeps SameStore (attachExtensions e p.key p.revision p.attachText (p.cleanup e)
        p.slots 0 []) := (adapts_attachExtensions hclean p.slots 0 []).store
    rcases bind_eq_err.1 h with h1 | ⟨id, w1, h1, g1⟩
    · exact hload.err h1
    · refine trans_of SameStore (hload.ok h1) ?_
      rcases bind_eq_err.1 g1 with h2 | ⟨attached, w2, h2, g2⟩
      · exact hattach.err h2
      · refine trans_of SameStore (hattach.ok h2) ?_
        rcases bind_eq_err.1 g2 with h3 | ⟨rt, w3, h3, g3⟩
        · exact ((hp.swap.adapts.swap id).onErr (hclean attached)).store.err h3
        · refine trans_of SameStore ((hp.swap.adapts.swap id).store.ok (onErr_eq_ok.1 h3)) ?_
          -- the write failed, and what came before it is taken back
          rcases bind_eq_err.1 g3 with h4 | ⟨completed, w4, -, g4⟩
          · obtain ⟨w4, h5, rfl⟩ := onErr_eq_err.1 h4
            rw [primErr_eq_err h5]
            exact ((hp.swap.adapts.restore rt).bind fun _ => hclean attached).store _
          · cases g4

end Rebuild

/-! ## Probes and TCX -/

theorem sameStore_openProbe (prog : ProgPinPath) (p : LinkPath) :
    Keeps SameStore (openProbe e prog p) :=
  sameStore_prim fun _ => .map fun _ => rfl

theorem sameStore_attachTarget (target : ProbeTarget) (prog : ProgPinPath) (pin : LinkPath) :
    Keeps SameStore (target.attach e prog pin) := by
  have hinfo : Keeps SameStore (probeInfo e pin) := sameStore_prim fun _ => .some rfl
  have hprobe : Keeps SameStore (attachProbe e prog pin) :=
    (sameStore_openProbe prog pin).bind fun _ => (adapts_pinLink _ _).store.bind fun _ =>
      hinfo.bind fun _ => .pure _
  have huprobe : Keeps SameStore (attachUprobe e prog pin) :=
    (sameStore_openProbe prog pin).bind fun _ => hinfo.bind fun _ =>
      (adapts_pinLink _ _).store.bind fun _ => .pure _
  cases target with
  | uprobe => exact huprobe
  | tracepoint | kprobe | fentry | fexit => exact hprobe

theorem placeTCX_store {hook : TCXHook} {id : ProgramID} {p : LinkPath} {a : TCXAnchor}
    (h : w.placeTCX hook id p a = some w') : w'.store = w.store := by
  unfold World.placeTCX at h
  split at h
  · cases h
  · cases a with
    | head =>
      cases h
      rfl
    | before x | after x =>
      dsimp only at h
      split at h
      · cases h
        rfl
      · cases h

theorem sameStore_kernelAttachTCX (hook : TCXHook) (prog : ProgPinPath) (p : LinkPath)
    (order : TCXAttachOrder) : Keeps SameStore (kernelAttachTCX e hook prog p netns order) := by
  refine .bind (sameStore_prim fun w a w' h => ?_) fun lnk =>
    (adapts_finishPinnedAttach p lnk).store
  simp only [Option.bind_eq_bind, Option.bind_eq_some_iff] at h
  obtain ⟨-, -, x, -, w1, hw1, h⟩ := h
  cases h
  exact placeTCX_store hw1

theorem sameStore_isLive (p : ProgramID) : Keeps SameStore (isLive e p) := by
  intro w
  unfold isLive
  split <;> rfl

theorem sameStore_filterLiveTCXLinks :
    ∀ (ls : List TCXLinkInfo) (checked : List (ProgramID × Bool)),
      Keeps SameStore (filterLiveTCXLinks e ls checked)
  | [], _ => Keeps.pure _
  | x :: ls, checked => by
    have hrest : ∀ ok, Keeps SameStore (do
        let rest ← filterLiveTCXLinks e ls ((x.kernelProgramID, ok) :: checked)
        pure (if ok then x :: rest else rest)) := fun ok =>
      (sameStore_filterLiveTCXLinks ls _).bind fun _ => Keeps.pure _
    unfold filterLiveTCXLinks
    dsimp only
    split
    · exact (Keeps.pure _).bind hrest
    · exact (sameStore_isLive _).bind hrest

end Bpfman
