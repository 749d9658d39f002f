import Bpfman.ExecutorProof
import Bpfman.Manager

/-!
# Attach and detach: what a successful call did

* `attach_eq_ok` — the program, mask and rebuild of a successful attach;
* `detach_eq_ok` — the record, the unlinked pin and the store action of a successful detach.
-/

namespace Bpfman

open Fallible Proc

variable {e : Env} {w w' : World}

/-! ## Lookup -/

theorem getProgram_eq_ok {id : ProgramID} {prog : ProgramRecord}
    (h : getProgram e id w = .ok prog w') : w.store.getProgram id = .ok prog ∧ w' = w :=
  (query_eq_ok.1 (mapErr_eq_ok.1 h)).2

theorem getLink_eq_ok {id : LinkID} {record : LinkRecord} (h : getLink e id w = .ok record w') :
    w.store.getLink id = .ok record ∧ w' = w :=
  (query_eq_ok.1 (mapErr_eq_ok.1 h)).2

/-! ## Attach -/

/-- The attach point of a spec. -/
def attachPoint (e : Env) (spec : AttachSpec) : Option Key := do
  let nsid ← e.nsid spec.spec.netns
  let ifindex ← e.ifindex spec.spec.ifname spec.spec.netns
  some ⟨spec.dispatcherType, nsid, ifindex⟩

theorem attachPoint_type {spec : AttachSpec} {key : Key} (h : attachPoint e spec = some key) :
    key.type = spec.dispatcherType := by
  simp only [attachPoint, Option.bind_eq_bind, Option.bind_eq_some_iff, Option.some.injEq] at h
  obtain ⟨nsid, -, ifindex, -, rfl⟩ := h
  rfl

/-- The attach rebuild of a spec. -/
def AttachSpec.kind (e : Env) : AttachSpec → AttachKind
  | .xdp s => xdpAttach e s.netns
  | .tc d s => tcAttach e d s.netns

theorem AttachSpec.kind_type (spec : AttachSpec) : (spec.kind e).type = spec.dispatcherType := by
  cases spec <;> rfl

theorem rebuildAction_eq (spec : AttachSpec) (ifindex mask : Nat) (prog : ProgramRecord) :
    rebuildAction e spec (rebuildArgs spec.spec ifindex mask prog) =
      rebuildForAttach e (spec.kind e) (rebuildArgs spec.spec ifindex mask prog) := by
  cases spec <;> rfl

theorem local_attachPlan (spec : AttachSpec) (key : Key) (snap : Option DispatcherSnapshot)
    (slots : List RebuildSlot) (cfg : Config) :
    ((spec.kind e).plan e key snap slots cfg).Local := by
  cases spec with
  | xdp s => exact local_attachPlan_xdp key snap slots cfg
  | tc d s => exact local_attachPlan_tc d key snap slots cfg

theorem encodeProceedOn_eq_ok {spec : AttachSpec} {mask : Nat}
    (h : encodeProceedOn spec w = .ok mask w') :
    proceedOnMask spec.dispatcherType spec.proceedOn = .ok mask ∧ w = w' := by
  cases spec with
  | xdp s => exact lift_eq_ok.1 h
  | tc d s => exact lift_eq_ok.1 (mapErr_eq_ok.1 h)

/-- **A successful attach** read its program and ran the rebuild of its kind. -/
theorem attach_eq_ok {spec : AttachSpec} {link : LinkRecord} (h : attach e spec w = .ok link w') :
    ∃ prog ifindex mask res, w.store.getProgram spec.spec.programID = .ok prog ∧
      prog.programType ∈ spec.accepts ∧ e.ifindex spec.spec.ifname spec.spec.netns = some ifindex ∧
      proceedOnMask spec.dispatcherType spec.proceedOn = .ok mask ∧
      rebuildForAttach e (spec.kind e) (rebuildArgs spec.spec ifindex mask prog) w = .ok res w' ∧
      link = res.link := by
  obtain ⟨prog, w1, h1, g1⟩ := bind_eq_ok.1 h
  obtain ⟨hp, rfl⟩ := getProgram_eq_ok h1
  obtain ⟨_, w2, h2, g2⟩ := bind_eq_ok.1 g1
  obtain ⟨hv, rfl⟩ := lift_eq_ok.1 h2
  have hacc : prog.programType ∈ spec.accepts := by
    unfold validateAttachProgramType at hv
    split at hv
    · assumption
    · cases hv
  obtain ⟨ifindex, w3, h3, g3⟩ := bind_eq_ok.1 g2
  obtain ⟨hi, rfl⟩ := lookup_eq_ok h3
  obtain ⟨mask, w4, h4, g4⟩ := bind_eq_ok.1 g3
  obtain ⟨hm, rfl⟩ := encodeProceedOn_eq_ok h4
  rw [dispatcherAttach_eq] at g4
  obtain ⟨prog', w5, h5, g5⟩ := bind_eq_ok.1 g4
  obtain ⟨-, hp', rfl⟩ := query_eq_ok.1 h5
  obtain rfl : prog = prog' := Except.ok.inj (hp.symm.trans hp')
  obtain ⟨res, w6, h6, g6⟩ := bind_eq_ok.1 g5
  cases g6
  rw [rebuildAction_eq] at h6
  exact ⟨prog, ifindex, mask, res, hp, hacc, hi, hm, h6, rfl⟩

/-! ## Detach -/

/-- Unlink the recorded pin of a link, if there is one. -/
def detachPin (e : Env) (record : LinkRecord) : M Unit :=
  match record.pinPath with
  | some pin => detachLink e pin
  | none => pure ()

/-- `Detach` reads the record, unlinks its pin and runs the store action of its kind. -/
theorem detach_eq (e : Env) (id : LinkID) :
    detach e id = (do
      let record ← getLink e id
      detachPin e record
      detachStoreAction e record.id (dispatcherKey record)) := by
  unfold detach
  congr 1
  funext record
  rw [runPlan_detachPlan]
  unfold detachPin
  cases record.pinPath <;> rfl

theorem detach_eq_ok {id : LinkID} (h : detach e id w = .ok () w') :
    ∃ record w1, w.store.getLink id = .ok record ∧ detachPin e record w = .ok () w1 ∧
      detachStoreAction e record.id (dispatcherKey record) w1 = .ok () w' := by
  rw [detach_eq] at h
  obtain ⟨record, w1, h1, g1⟩ := bind_eq_ok.1 h
  obtain ⟨hr, rfl⟩ := getLink_eq_ok h1
  obtain ⟨_, w2, h2, g2⟩ := bind_eq_ok.1 g1
  exact ⟨record, w2, hr, h2, g2⟩

end Bpfman
