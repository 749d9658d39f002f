import Bpfman.Priority
import Bpfman.ProbePins

/-!
# The record an attach returns

`Attach` returns a link record, and `GetLink` reads one from the rows. The returned record is put
together by hand on three paths:

* `simpleAttach` takes the row the database returned and the details it stored: the two agree;
* `attachTCX` stores no position, and reports position 0 for every link, while a read counts the
  links of the hook that come before;
* the dispatcher rebuilds fill in neither the creation time nor the namespace path, which a read
  returns.

`attach_record_iff` says for each kind when the two records are equal.
-/

namespace Bpfman

open Fallible Proc Store List

variable {e : Env} {w w' : World} {s s' : Store} {l : LinkRow} {link : LinkRecord}

/-! ## Links without a dispatcher -/

theorem getLink_appended (hlinks : s'.links = s.links ++ [l]) (hfresh : ∀ r ∈ s.links, r.id ≠ l.id)
    (hk : ¬ (l.kind = .xdp ∨ l.kind = .tc)) {details : LinkDetails}
    (hd : s'.getStandaloneDetails l = .ok details) :
    s'.getLink l.id = .ok (linkRecord l (some details)) := by
  have hfind : s'.links.find? (fun r => decide (r.id = l.id)) = some l := by
    have hold : s.links.find? (fun r => decide (r.id = l.id)) = none :=
      find?_eq_none.2 fun r hr => by simpa using hfresh r hr
    rw [hlinks, find?_append, hold]
    simp
  unfold Store.getLink
  rw [hfind]
  simp only [hk, if_false, hd, bind, Except.bind]

/-- The position of a TCX link that was just added is 0 iff no link of its hook comes before it. -/
theorem tcxPosition_addLink_eq_zero {r : TCXRow} (hl : l.standalone = some (.tcx r)) :
    (s.addLink l).tcxPosition (l.id, r) = 0 ↔
      ∀ t ∈ s.tcxRows, t.2.hook = r.hook → ¬ tcxBefore t (l.id, r) := by
  have hrows : (s.addLink l).tcxRows = s.tcxRows ++ [(l.id, r)] := by
    unfold tcxRows addLink
    simp [hl]
  have hself : ¬ tcxBefore (l.id, r) (l.id, r) := by
    rintro (h | ⟨-, h⟩)
    · exact lt_irrefl _ h
    · exact lt_irrefl _ h
  unfold tcxPosition
  rw [hrows, countP_eq_zero]
  constructor
  · intro h t ht hhook hbefore
    exact h t (mem_append_left _ ht) (decide_eq_true ⟨hhook, hbefore⟩)
  · intro h t ht hdec
    obtain ⟨hhook, hbefore⟩ := of_decide_eq_true hdec
    rcases mem_append.1 ht with ht | ht
    · exact h t ht hhook hbefore
    · rw [mem_singleton.1 ht] at hbefore
      exact hself hbefore

/-- No recorded link of the hook comes before the new one. -/
def TCXAttachSpec.ComesFirst (spec : TCXAttachSpec) (s : Store) (hook : TCXHook) : Prop :=
  ∀ t ∈ s.tcxRows, t.2.hook = hook → ¬ Store.tcxBefore t (s.linkSeq + 1, spec.row hook)

theorem tcx_record_iff {spec : TCXAttachSpec} (h : attachTCX e spec w = .ok link w') :
    w'.store.getLink link.id = .ok link ↔
      ∀ hook, spec.hook? e = some hook → spec.ComesFirst w.store hook := by
  obtain ⟨hook, pin, k, hhook, hc, rfl, hst⟩ := attachTCX_store h
  set l := newLinkRow e.now w.store (spec.linkSpec hook pin k) with hl
  have hrow : l.standalone = some (.tcx (spec.row hook)) := rfl
  have hfresh : ∀ r ∈ w.store.links, r.id ≠ l.id := fun r hr =>
    ((linkRowOK_iff.1 hc.row).1 r hr).1
  have hdetails : w'.store.getStandaloneDetails l =
      .ok (.tcx (w'.store.tcxDetails l.id (spec.row hook))) :=
    getStandaloneDetails_eq_ok.2 (.inr ⟨_, hrow, rfl, int32Scans_toInt32 _, rfl⟩)
  have hget := getLink_appended (by rw [hst]; rfl) hfresh hc.kind hdetails
  have hid : (tcxRecord l (spec.row hook)).id = l.id := rfl
  have hfirst : (∀ hook, spec.hook? e = some hook → spec.ComesFirst w.store hook) ↔
      spec.ComesFirst w.store hook := by
    rw [hhook]
    exact ⟨fun hall => hall _ rfl, fun hf hook' heq => Option.some.inj heq ▸ hf⟩
  have hposition : w'.store.tcxPosition (l.id, spec.row hook) = 0 ↔
      spec.ComesFirst w.store hook := by
    rw [hst]
    exact tcxPosition_addLink_eq_zero hrow
  rw [hid, hget, hfirst, ← hposition]
  constructor
  · intro heq
    have := congrArg LinkRecord.details (Except.ok.inj heq)
    exact congrArg TCXDetails.position (LinkDetails.tcx.inj (Option.some.inj this))
  · intro hzero
    rw [tcxRecord, tcxDetails, hzero]

/-- **What a successful probe attach did to the store**, and what it reports. -/
theorem simpleAttach_store {scope : Bool} {spec : ProbeAttachSpec}
    (h : simpleAttach e scope spec w = .ok link w') :
    ∃ details, ∃ l : LinkRow, l.standalone = some (.probe details) ∧ l.kind = details.kind ∧
      (∀ r ∈ w.store.links, r.id ≠ l.id) ∧ w'.store.links = w.store.links ++ [l] ∧
      link = linkRecord l (some (.probe details)) := by
  obtain ⟨b, w1, h1, hb⟩ := bind_eq_ok.1 h
  unfold simpleAttachPlan at h1
  rw [runPlan_cons _ _ (by simp [prepareNode])] at h1
  obtain ⟨b1, w2, h2, g2⟩ := bind_eq_ok.1 h1
  obtain ⟨details, -, rfl, hw2⟩ := prepareNode_eq_ok.1 h2
  replace g2 := onErr_eq_ok.1 g2
  rw [hw2, runPlan_cons _ _ (by simp [pendingNode])] at g2
  obtain ⟨b2, w3, h3, g3⟩ := bind_eq_ok.1 g2
  obtain ⟨hrec, rfl, rfl⟩ := pendingNode_eq_ok.1 h3
  replace g3 := onErr_eq_ok.1 g3
  rw [runPlan_cons _ _ (by simp [attachNode])] at g3
  obtain ⟨b3, w4, h4, g4⟩ := bind_eq_ok.1 g3
  replace g4 := onErr_eq_ok.1 g4
  rw [runPlan_single _ (by simp [finaliseNode])] at g4
  set l := pendingProbe e spec w details with hl
  have hfresh : ∀ r ∈ w.store.links, r.id ≠ l.id := fun r hr =>
    ((linkRowOK_iff.1 hrec.creates.row).1 r hr).1
  -- the kernel attach leaves the store alone
  have hattach : ∃ k, b3 = { details := some details, pending := some l, out := some k } ∧
      w4.store = w.store.addLink l := by
    obtain ⟨_, _, hp, k1⟩ := bind_eq_ok.1 h4
    cases hp
    obtain ⟨_, _, hp, k2⟩ := bind_eq_ok.1 k1
    cases hp
    obtain ⟨k, w5, h5, k3⟩ := bind_eq_ok.1 k2
    cases k3
    exact ⟨k, rfl, (sameStore_attachTarget _ _ _).ok h5⟩
  obtain ⟨k, rfl, hst⟩ := hattach
  obtain ⟨_, _, hp, k1⟩ := bind_eq_ok.1 g4
  cases hp
  obtain ⟨_, _, hp, k2⟩ := bind_eq_ok.1 k1
  cases hp
  obtain ⟨_, _, hp, k3⟩ := bind_eq_ok.1 k2
  cases hp
  obtain ⟨l', w5, h5, k4⟩ := bind_eq_ok.1 k3
  cases k4
  cases hb
  obtain ⟨-, r, hx, ⟨⟩⟩ := write_eq_ok.1 (mapErr_eq_ok.1 h5)
  rw [hst] at hx
  obtain ⟨hr, hlinks⟩ := finaliseLink_addLink hfresh hx
  refine ⟨details, r.2, ?_, ?_, ?_, hlinks, rfl⟩
  · rw [hr]
    rfl
  · rw [hr]
    rfl
  · rw [hr]
    exact hfresh

/-- **A probe attach returns the record that is read.** -/
theorem probe_record {scope : Bool} {spec : ProbeAttachSpec}
    (h : simpleAttach e scope spec w = .ok link w') : w'.store.getLink link.id = .ok link := by
  obtain ⟨details, l, hrow, hkind, hfresh, hlinks, rfl⟩ := simpleAttach_store h
  have hk : ¬ (l.kind = .xdp ∨ l.kind = .tc) ∧ (StandaloneRow.probe details).serves
      l.kind = true := by
    rw [hkind]
    cases details with
    | kprobe f o ret => cases ret <;> exact ⟨by simp [ProbeDetails.kind], rfl⟩
    | uprobe t f o pid c ret => cases ret <;> exact ⟨by simp [ProbeDetails.kind], rfl⟩
    | tracepoint | fentry | fexit => exact ⟨by simp [ProbeDetails.kind], rfl⟩
  exact getLink_appended hlinks hfresh hk.1
    (getStandaloneDetails_eq_ok.2 (.inl ⟨details, hrow, hk.2, rfl⟩))

/-! ## Links of a dispatcher -/

/-- The record of a dispatcher member is read from its rows, if its priority scans. -/
theorem getLink_member_iff (hs : s.Consistent) {m : MemberRow} (hm : s.IsMemberRow m)
    {d : DispatcherRow} (hd : d ∈ s.dispatchers) (hid : d.programID = m.detail.dispatcherProgramID)
    {record : LinkRecord} :
    s.getLink m.link.id = .ok record ↔
      priorityScans m.detail = true ∧ record = m.record d := by
  have hk := hm.kind hs
  constructor
  · intro h
    rcases (Store.getLink_eq_ok hs).1 h with ⟨l, hl, hlid, hno, -⟩ | ⟨l, x, r, hlr, hlid, rfl⟩
    · obtain rfl := Table.eq_of_key hs.linkIDs hl hm.link hlid
      exact absurd (hk ▸ linkKind_dispatcher _) hno
    · obtain rfl := Table.eq_of_key hs.linkIDs hlr.link hm.link hlid
      obtain rfl := Table.eq_of_key hs.detailIDs hlr.detail hm.detail
        (hlr.detail_id.trans hm.link_id)
      obtain rfl := Table.eq_of_key hs.dispatcherIDs hlr.dispatcher hd
        (hlr.programID.trans hid.symm)
      exact ⟨hlr.scans, rfl⟩
  · rintro ⟨hp, rfl⟩
    exact (Store.getLink_eq_ok hs).2 (.inr ⟨m.link, m.detail, d,
      ⟨hm.link, hm.detail, hd, hm.link_id.symm, hk, hid, hp⟩, rfl, rfl⟩)

/-- The record a rebuild reports for its new slot against the rows it writes for it. -/
theorem newExtRecord_eq_iff {key : Key} {a : RebuildArgs} (hif : a.ifindex = key.ifindex)
    {d : DispatcherRow} {id : LinkID} {now i : Nat} {codes : List Int} {rt : DispatcherRuntime} :
    newExtRecord a key d.revision codes i (attachedAt e key d.revision i)
        (completedMember id (memberSpec e key d.revision i a.newSlot)) rt =
      linkRecord
        (memberLinkRow now key id (memberSpec e key d.revision i a.newSlot))
        (some (linkDetails (memberDetailRow key rt id codes
          (memberSpec e key d.revision i a.newSlot)) d)) ↔
      now = 0 ∧ rt.netnsPath = "" ∧ toInt32 a.priority = a.priority := by
  have hfields : now = 0 ∧ rt.netnsPath = "" ∧ toInt32 a.priority = a.priority ↔
      (toInt32 a.priority = a.priority ∧ rt.netnsPath = "") ∧ 0 = now :=
    ⟨fun h => ⟨⟨h.2.2, h.2.1⟩, h.1.symm⟩, fun h => ⟨h.2.symm, h.1.2, h.1.1⟩⟩
  obtain ⟨type, nsid, ifindex⟩ := key
  rw [hfields]
  cases type <;>
    simp [newExtRecord, linkRecord, linkDetails, memberLinkRow,
      memberDetailRow, completedMember, memberSpec, attachedAt, RebuildArgs.newSlot, hif,
      DispatcherType.linkKind]

/-- **The record of a dispatcher attach** is the one that is read only without a namespace path, and
only if the time is the zero time. -/
theorem dispatcher_record_iff (hs : w.store.Consistent) {spec : AttachSpec}
    (h : attach e spec w = .ok link w') :
    w'.store.getLink link.id = .ok link ↔
      e.now = 0 ∧ spec.spec.netns = "" ∧ spec.spec.priority < 2 ^ 31 := by
  obtain ⟨key, snap, a, cfg, rt, ha, hrep, hnetns⟩ := attached_reported hs h
  have hs' := ha.consistent hs
  obtain ⟨m, hm, hid, hw⟩ := ha.written_newSlot hs
  have hrow := ((mem_memberRows hs').1 hm).1
  obtain ⟨completed, hst, -⟩ := ha.written
  obtain ⟨-, -, -, -, -, hdisp, -⟩ := replace_spec hst
  set d := dispatcherRow (((spec.kind e).plan e key snap (a.slots snap) cfg).spec e rt)
  have hd : d ∈ w'.store.dispatchers := by simp [hdisp]
  have hdid : d.programID = m.detail.dispatcherProgramID := by rw [hw.detail]; rfl
  obtain ⟨codes, hcodes, hlink⟩ := hrep.record
  obtain rfl : codes = m.detail.proceedOn := Except.ok.inj (hcodes.symm.trans hw.codes)
  have hprio : m.detail.priority = spec.spec.priority := by rw [hw.detail, ← ha.priority]; rfl
  have hread : m.record d = linkRecord
      (memberLinkRow e.now key link.id (memberSpec e key d.revision
        (newSlotPosition (a.slots snap)) a.newSlot))
      (some (linkDetails (memberDetailRow key rt link.id m.detail.proceedOn
        (memberSpec e key d.revision (newSlotPosition (a.slots snap)) a.newSlot)) d)) := by
    rw [← hid, hrow.link_id]
    exact congrArg₂ (fun l x => linkRecord l (some (linkDetails x d))) hw.link hw.detail
  have hequal : link = m.record d ↔
      e.now = 0 ∧ spec.spec.netns = "" ∧ toInt32 a.priority = a.priority := by
    rw [hread, ← hnetns]
    have hiff := @newExtRecord_eq_iff e key a hrep.ifindex d link.id e.now
      (newSlotPosition (a.slots snap)) m.detail.proceedOn rt
    exact ⟨fun heq => hiff.1 (hlink.symm.trans heq), fun hall => hlink.trans (hiff.2 hall)⟩
  rw [← hid, getLink_member_iff hs' hrow hd hdid, hequal, toInt32_eq_iff, ha.priority,
    priorityScans, hprio, decide_eq_true_eq]
  exact ⟨fun hall => hall.2, fun hall => ⟨hall.2.2, hall⟩⟩

/-! ## Any kind -/

/-- When the record of an attach is the one that is read: always for a probe, if no link of the hook
comes before it for a TCX link, and in effect never for a link of a dispatcher, because the zero
time is not the time of any write. -/
def AnyAttachSpec.Echoes (e : Env) (w : World) : AnyAttachSpec → Prop
  | .dispatcher spec => e.now = 0 ∧ spec.spec.netns = "" ∧ spec.spec.priority < 2 ^ 31
  | .tcx spec => ∀ hook, spec.hook? e = some hook → spec.ComesFirst w.store hook
  | .probe _ => True

/-- **The record of a successful attach** is the one `GetLink` returns for its id exactly if the
spec echoes. -/
theorem attach_record_iff (hs : w.store.Consistent) {scope : Bool} {spec : AnyAttachSpec}
    {link : LinkRecord} (h : attachAny e scope spec w = .ok link w') :
    w'.store.getLink link.id = .ok link ↔ spec.Echoes e w := by
  cases spec with
  | dispatcher spec => exact dispatcher_record_iff hs h
  | tcx spec =>
    obtain ⟨prog, w1, h1, g1⟩ := bind_eq_ok.1 h
    obtain ⟨-, rfl⟩ := getProgram_eq_ok h1
    obtain ⟨_, w2, h2, g2⟩ := bind_eq_ok.1 g1
    obtain ⟨-, rfl⟩ := lift_eq_ok.1 h2
    exact tcx_record_iff g2
  | probe spec =>
    obtain ⟨prog, w1, h1, g1⟩ := bind_eq_ok.1 h
    obtain ⟨_, w2, h2, g2⟩ := bind_eq_ok.1 g1
    exact iff_of_true (probe_record g2) trivial

open Sample

/-- A kprobe. -/
theorem attach_record_iff_sample :
    let out := attachAny (env 1 []) true (.probe kprobe) probed
    ∃ link w', out = .ok link w' ∧ w'.store.getLink link.id = .ok link := by
  have hok : (attachAny (env 1 []) true (.probe kprobe) probed).isOk = true := by
    decide +kernel
  obtain ⟨link, hout⟩ := Outcome.eq_ok_of_isOk hok
  have hfresh : Fresh probed :=
    { programIDs := by decide, linkIDs := by decide, linkProgram := by simp [probed]
      links := by simp [probed], detailed := by simp [probed], details := rfl
      dispatchers := rfl, pinPath := by decide
      pins := fun id q h => by
        have hm := Table.mem_of_lookup h
        simp only [probed, mem_singleton, Prod.mk.injEq, ProgPinPath.prog.injEq] at hm
        obtain ⟨rfl, rfl⟩ := hm
        rfl }
  exact ⟨link, _, hout, (attach_record_iff hfresh.inv.store hout).2 trivial⟩

/-- An XDP attach at time 1 in a namespace of its own: the returned record has neither. A second TCX
link, at a larger priority, is reported at position 0 and read at position 1. -/
theorem attach_record_differs :
    let xdp := attachAny (env 1 []) true
      (.dispatcher (.xdp ⟨1, "eth0", "/run/netns/a", 50, [], []⟩)) world
    let tcx := attachAny (env 2 []) true (.tcx { tcxSecond with priority := 60 })
      (attachAny (env 1 []) true (.tcx tcxFirst) tcxLoaded).state
    ([xdp, tcx].map fun out => out.isOk) = [true, true] ∧
      ([xdp, tcx].map fun out => decide ((out.value?.bind fun link =>
        (out.state.store.getLink link.id).toOption) = out.value?)) = [false, false] := by
  decide +kernel

end Bpfman
