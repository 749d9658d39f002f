import Bpfman.Attached
import Bpfman.MapFrame
import Bpfman.ProbePins
import Bpfman.StoreFrame
import Bpfman.TCXRun

/-!
# Every dispatcher has a member

A row of the `dispatchers` table without a member link is a dispatcher that runs nothing. `Staffed`
says that there is none, and `Staffs` that an operation leaves none behind if it found none.

* `Store.Staffed.recorded`, `Store.Staffed.deleteSnapshot`, `Store.Staffed.trims` — the changes of
  the tables;
* `staffs_attachAny` — an attach of any kind, whatever it returns and whichever primitives fail.
-/

namespace Bpfman

open Fallible Proc Store List

variable {e : Env} {w w' : World} {s s' : Store} {key : Key} {p : ProgramID}

/-! ## Stores -/

/-- The tables are consistent and every dispatcher has a member. -/
structure Store.Staffed (s : Store) : Prop where
  consistent : s.Consistent
  inhabited : s.Inhabited

theorem staffed_empty : Staffed {} where
  consistent := by constructor <;> simp
  inhabited r hr := by cases hr

/-- Only the rows of links, their details, dispatchers and the ids of programs matter. -/
theorem Store.Staffed.of_tables (h : s.Staffed) (hlinks : s'.links = s.links)
    (hdetails : s'.details = s.details) (hdispatchers : s'.dispatchers = s.dispatchers)
    (hids : (s'.programs.map (·.programID)).Nodup)
    (hprograms : ∀ x ∈ s.programs, ∃ y ∈ s'.programs, y.programID = x.programID) : s'.Staffed where
  consistent := by
    obtain ⟨programs', mapSets', links', details', dispatchers', shared', seq'⟩ := s'
    subst hlinks hdetails hdispatchers
    have hs := h.consistent
    refine { hs with programIDs := hids, linkProgram := fun l hl => ?_ }
    obtain ⟨x, hx, hxl⟩ := hs.linkProgram l hl
    obtain ⟨y, hy, hyx⟩ := hprograms x hx
    exact ⟨y, hy, hyx.trans hxl⟩
  inhabited r hr := by
    rw [hdispatchers] at hr
    rw [hdetails]
    exact h.inhabited r hr

theorem Store.Staffed.recorded {plan : RebuildPlan} {rt : DispatcherRuntime} (h : s.Staffed)
    (hrec : Recorded e plan rt s s') (hmasks : MasksFit plan.slots) (hne : plan.slots ≠ []) :
    s'.Staffed := by
  have hs' := hrec.consistent h.consistent hmasks
  refine ⟨hs', fun r hr => ?_⟩
  by_cases hk : r.key = plan.key
  · -- the first slot of the rebuild
    obtain ⟨slot, hslot⟩ : ∃ slot, plan.slots[0]? = some slot := by
      cases hslots : plan.slots with
      | nil => exact absurd hslots hne
      | cons slot slots => exact ⟨slot, rfl⟩
    obtain ⟨m, hm, -⟩ := hrec.exists_written hs' hslot
    obtain ⟨hrow, hmk⟩ := (mem_memberRows hs').1 hm
    exact ⟨m.detail, hrow.detail, hmk.trans hk.symm⟩
  · -- a member of another attach point
    obtain ⟨completed, hst⟩ := hrec
    obtain ⟨ns, -, -, -, hd, hdisp, -⟩ := replace_spec hst
    rw [hdisp] at hr
    rcases mem_append.1 hr with hr | hr
    · obtain ⟨d, hdm, hdk⟩ := h.inhabited r (mem_filter.1 hr).1
      refine ⟨d, ?_, hdk⟩
      rw [hd]
      refine mem_append_left _ ?_
      exact (mem_deleteAttachPoint_details h.consistent).2 ⟨hdm, hdk ▸ hk⟩
    · exact absurd (congrArg DispatcherRow.key (mem_singleton.1 hr)) hk

theorem Store.Staffed.deleteSnapshot (h : s.Staffed)
    (hdel : s.deleteDispatcherSnapshot key = .ok s') : s'.Staffed := by
  refine ⟨consistent_deleteSnapshot h.consistent hdel, fun r hr => ?_⟩
  rw [deleteDispatcherSnapshot_eq_ok hdel] at hr ⊢
  obtain ⟨hr, hk⟩ := mem_filter.1 hr
  obtain ⟨d, hd, hdk⟩ := h.inhabited r hr
  refine ⟨d, (mem_deleteAttachPoint_details h.consistent).2 ⟨hd, ?_⟩, hdk⟩
  rw [hdk]
  exact of_decide_eq_true hk

/-- Links that are not members may go. -/
theorem Store.Staffed.deleteLinks {ids : List LinkID} (h : s.Staffed)
    (hids : ∀ d ∈ s.details, d.id ∉ ids) : (s.deleteLinks ids).Staffed := by
  refine ⟨h.consistent.deleteLinks ids, fun r hr => ?_⟩
  obtain ⟨d, hd, hdk⟩ := h.inhabited r hr
  exact ⟨d, mem_deleteLinks_details.2 ⟨hd, hids d hd⟩, hdk⟩

/-- The rows of a program may go if every dispatcher has a member of another program. -/
theorem Store.Staffed.trims (hs : s.Consistent) (ht : Trims p s s')
    (hmember : ∀ r ∈ s.dispatchers, ∃ y, s.IsMemberRow y ∧ y.detail.key = r.key ∧
      y.link.programID ≠ p) : s'.Staffed := by
  refine ⟨ht.consistent hs, fun r hr => ?_⟩
  obtain ⟨y, hy, hk, hne⟩ := hmember r (ht.dispatchers r hr)
  exact ⟨y.detail, (ht.member hs y hy hne).detail, hk⟩

/-! ## Worlds -/

/-- An operation that leaves every dispatcher with a member. -/
def Staffs (w w' : World) : Prop := w.store.Staffed → w'.store.Staffed

instance : Std.Refl Staffs := ⟨fun _ => id⟩

instance : IsTrans World Staffs := ⟨fun _ _ _ h h' hs => h' (h hs)⟩

theorem staffs_of_store_eq (h : w'.store = w.store) : Staffs w w' := fun hs => by rwa [h]

theorem staffs_fail (w : World) (c : Call) : Staffs w (w.fail c) := staffs_of_store_eq rfl

theorem staffs_of_sameStore {α : Type} {m : M α} (h : Keeps SameStore m) :
    Keeps Staffs m := h.mono fun _ _ => staffs_of_store_eq

theorem staffs_query {α : Type} {c : Call} {f : Store → Except Err α} :
    Keeps Staffs (query e c f) := keeps_query staffs_fail

/-! ## Attach -/

theorem staffs_rebuildDispatcher {plan : RebuildPlan} (hp : plan.Local)
    (hmasks : MasksFit plan.slots) (hne : plan.slots ≠ []) :
    Keeps Staffs (rebuildDispatcher e plan) := by
  intro w hs
  rcases rebuildDispatcher_store (e := e) hp w with h | ⟨rt, hrec⟩
  · rwa [h]
  · exact hs.recorded hrec hmasks hne

theorem staffs_dropRevision (key : Key) (r : Nat) : Keeps Staffs (dropRevision e key r) :=
  staffs_of_sameStore (adapts_removeAll _).store.ignore

/-- The masks of a snapshot fit in 32 bits, as every snapshot that is read has them. -/
def DispatcherSnapshot.Fits (snap : DispatcherSnapshot) : Prop :=
  ∀ m ∈ snap.members, ∀ b, m.proceedOn.testBit b = true → b < 32

theorem fits_of_read {ord : RowOrder} {snap : DispatcherSnapshot}
    (h : s.getDispatcherSnapshot ord key = .ok snap) : snap.Fits := by
  intro m hm b hb
  obtain ⟨row, -, hdec⟩ := exists_row_of_member h hm
  exact proceedOnMask_bit_lt hdec.mask hb

theorem staffs_existingSnapshot (key : Key) : Keeps Staffs (existingSnapshot e key) := by
  refine staffs_query.attempt.bind fun res => ?_
  cases res with
  | ok snap => exact .pure _
  | error err => exact (Keeps.pure _).ite (Keeps.fail _)

theorem staffs_rebuildForAttach {k : AttachKind} {a : RebuildArgs}
    (hp : ∀ key snap slots cfg, (k.plan e key snap slots cfg).Local)
    (hmask : ∀ b, a.proceedOn.testBit b = true → b < 32) :
    Keeps Staffs (rebuildForAttach e k a) := by
  refine .bind (.mapErr (staffs_of_sameStore (sameStore_prim fun _ => .map fun _ => rfl)))
    fun nsid => ?_
  · refine (staffs_existingSnapshot _).bind_of (P := fun snap => ∀ s, snap = some s → s.Fits) ?_ ?_
    · rintro w1 snap w2 hsnap s rfl
      obtain ⟨-, ⟨s', heq, hget⟩ | ⟨hnone, -⟩⟩ := existingSnapshot_eq_ok hsnap
      · cases heq
        exact fits_of_read hget
      · cases hnone
    · intro snap hfits
      refine .ite (Keeps.fail _) ((Keeps.lift _).mapErr.bind fun cfg => ?_)
      refine .bind (staffs_rebuildDispatcher (hp ..) (MasksFit.sort fun slot hslot b hb => ?_) ?_)
        fun res => .bind ?_ fun _ => (Keeps.lift _).mapErr.bind fun codes => ?_
      · rcases mem_allSlots.1 hslot with ⟨sn, hsn, m, hm, rfl⟩ | rfl
        · exact hfits sn hsn m hm b hb
        · exact hmask b hb
      · intro hnil
        have hlen := congrArg length hnil
        simp [AttachKind.plan, RebuildArgs.allSlots] at hlen
      · cases snap with
        | none => exact .pure ()
        | some sn => exact staffs_dropRevision _ _
      · unfold reportExtension
        split
        · exact .pure _
        · exact .fail _

/-- **An attach to a dispatcher** leaves it with a member. -/
theorem staffs_attach (spec : AttachSpec) : Keeps Staffs (attach e spec) := by
  refine .bind staffs_query.mapErr fun prog => (Keeps.lift _).bind fun _ => ?_
  refine .bind (staffs_of_sameStore (sameStore_prim fun _ => .map fun _ => rfl)) fun ifindex => ?_
  · refine .bind_of (P := fun mask => ∀ b, Nat.testBit mask b = true → b < 32) ?_ ?_ ?_
    · cases spec with
      | xdp sp => exact .lift _
      | tc d sp => exact (Keeps.lift _).mapErr
    · intro w1 mask w2 hm b hb
      exact proceedOnMask_bit_lt (encodeProceedOn_eq_ok hm).1 hb
    · intro mask hmask
      rw [dispatcherAttach_eq]
      refine staffs_query.bind fun prog => .bind ?_ fun _ => .pure _
      rw [rebuildAction_eq]
      exact staffs_rebuildForAttach (local_attachPlan spec) hmask

/-! ## Attaching without a dispatcher -/

theorem Store.Staffed.addLink {l : LinkRow} (h : s.Staffed) (hrow : linkRowOK s l = true)
    (hd : l.Detailed) (hk : ¬ (l.kind = .xdp ∨ l.kind = .tc)) : (s.addLink l).Staffed :=
  ⟨h.consistent.addLink hrow hd hk, h.inhabited⟩

theorem staffs_createTCXLink {spec : TCXAttachSpec} {hook : TCXHook} {pin : LinkPath}
    {k : KernelLinkID} : Keeps Staffs (createLink e pin (spec.linkSpec hook pin k)) := by
  refine keeps_primErr (fun _ _ hs => hs) fun w l w' h hs => ?_
  obtain ⟨-, hc, -⟩ := createLink_eq_ok.1 h
  obtain ⟨hcr, rfl, hst⟩ := Store.createLink_eq_ok.1 hc
  rw [hst]
  exact hs.addLink hcr.row rfl hcr.kind

theorem staffs_attachTCX (spec : TCXAttachSpec) : Keeps Staffs (attachTCX e spec) := by
  have hlookup : ∀ {α : Type} {c : Call} {x : Option α},
      Keeps Staffs (prim e c fun w => x.map fun a => (a, w)) :=
    staffs_of_sameStore (sameStore_prim fun _ => .map fun _ => rfl)
  refine hlookup.bind fun ifindex => staffs_query.mapErr.bind fun prog =>
    hlookup.mapErr.bind fun nsid => staffs_query.mapErr.bind fun existing => ?_
  unfold attachTCXAt
  split
  · exact .fail _
  · refine (staffs_of_sameStore (adapts_detachLink _).store).mapErr.bind fun _ =>
      (staffs_of_sameStore (sameStore_filterLiveTCXLinks _ _)).bind fun live =>
        .bind ?_ fun b => ?_
    · rw [runPlan_attachTCXPlan]
      exact (staffs_of_sameStore (sameStore_kernelAttachTCX _ _ _ _)).bind fun out =>
        (staffs_createTCXLink.mapErr.bind fun _ => .pure _).onErr
          (staffs_of_sameStore (adapts_detachLink _).store).ignore
    · cases b.link with
      | none => exact .fail _
      | some link => exact .pure _

theorem Store.Staffed.finalise (h : s.Staffed) (id : LinkID) (k : KernelLinkID) :
    Staffed { s with links := s.links.map fun r =>
      if r.id = id then { r with kernelLinkID := some k } else r } := by
  set f : LinkRow → LinkRow := fun r => if r.id = id then { r with kernelLinkID := some k } else r
    with hf
  have hfr : ∀ r, (f r).id = r.id ∧ (f r).kind = r.kind ∧ (f r).programID = r.programID ∧
      (f r).pinPath = r.pinPath ∧ (f r).standalone = r.standalone := by
    intro r
    simp only [hf]
    split <;> exact ⟨rfl, rfl, rfl, rfl, rfl⟩
  have hs := h.consistent
  refine ⟨{ hs with
    linkIDs := ?_, linkProgram := ?_, linkDetail := ?_, detailLink := ?_, detailed := ?_ },
    h.inhabited⟩
  · rw [map_map]
    exact (map_congr_left fun r _ => (hfr r).1) ▸ hs.linkIDs
  · rintro l hl
    obtain ⟨r, hr, rfl⟩ := mem_map.1 hl
    rw [(hfr r).2.2.1]
    exact hs.linkProgram r hr
  · rintro l hl hkind
    obtain ⟨r, hr, rfl⟩ := mem_map.1 hl
    rw [(hfr r).2.1] at hkind
    rw [(hfr r).1]
    exact hs.linkDetail r hr hkind
  · intro d hd
    obtain ⟨r, hr, hid, hkind, hpin⟩ := hs.detailLink d hd
    refine ⟨f r, mem_map_of_mem hr, ?_⟩
    rw [(hfr r).1, (hfr r).2.1, (hfr r).2.2.2.1]
    exact ⟨hid, hkind, hpin⟩
  · rintro l hl
    obtain ⟨r, hr, rfl⟩ := mem_map.1 hl
    have hdet := hs.detailed r hr
    unfold LinkRow.Detailed at hdet ⊢
    rw [(hfr r).2.2.2.2, (hfr r).2.1]
    exact hdet

/-- While a link that is no member is set up, it may go again. -/
def StaffsBut (x : LinkID) (w w' : World) : Prop :=
  (w.store.Staffed ∧ ∀ d ∈ w.store.details, d.id ≠ x) →
    w'.store.Staffed ∧ ∀ d ∈ w'.store.details, d.id ≠ x

instance {x : LinkID} : Std.Refl (StaffsBut x) := ⟨fun _ => id⟩

instance {x : LinkID} : IsTrans World (StaffsBut x) := ⟨fun _ _ _ h h' hs => h' (h hs)⟩

theorem staffsBut_of_sameStore {x : LinkID} {α : Type} {m : M α} (h : Keeps SameStore m) :
    Keeps (StaffsBut x) m := h.mono fun w w' heq hs => by
  rw [show w'.store = w.store from heq]
  exact hs

theorem staffsBut_deleteLink (x : LinkID) : Keeps (StaffsBut x) (deleteLink e x) := by
  refine keeps_primErr (fun _ _ h => h) fun w _ w' h ⟨hs, hno⟩ => ?_
  rw [deleteLink_eq_ok h]
  refine ⟨hs.deleteLinks fun d hd => by simpa using hno d hd, fun d hd => ?_⟩
  exact hno d (mem_deleteLinks_details.1 hd).1

theorem staffsBut_finaliseLink {x id : LinkID} {k : KernelLinkID} :
    Keeps (StaffsBut x) (finaliseLink e id k) := by
  refine keeps_write (fun _ _ h => h) fun w ⟨s', l'⟩ hst ⟨hs, hno⟩ => ?_
  obtain rfl := finaliseLink_eq_ok hst
  exact ⟨hs.finalise id k, hno⟩

theorem staffsBut_bound {x : LinkID} {α : Type} (o : Option α) : Keeps (StaffsBut x) (bound o) := by
  cases o with
  | none => exact .fail _
  | some a => exact .pure _

/-- From the kernel attach of a probe on, with its link recorded. -/
theorem staffsBut_attach (spec : ProbeAttachSpec) (x : LinkID) (b : SimpleBindings) :
    Keeps (StaffsBut x) (runPlan [attachNode e spec, finaliseNode e] b) := by
  rw [runPlan_cons _ _ (by simp [attachNode])]
  refine .bind ?_ fun b' => .onErr ?_ ?_
  · exact (staffsBut_bound _).bind fun l => (staffsBut_bound _).bind fun pin =>
      (staffsBut_of_sameStore (sameStore_attachTarget _ _ _)).bind fun out => .pure _
  · rw [runPlan_single _ (by simp [finaliseNode])]
    exact (staffsBut_bound _).bind fun details => (staffsBut_bound _).bind fun l =>
      (staffsBut_bound _).bind fun out => staffsBut_finaliseLink.mapErr.bind fun l' =>
        .pure _
  · refine .forEach fun a ha => .ignore ?_
    obtain ⟨pin, -, rfl⟩ := Option.map_eq_some_iff.1 (Option.mem_toList.1 ha)
    exact staffsBut_of_sameStore (adapts_detachLink pin).store

/-- The node that records the link, and the rest of the plan: if that fails the link goes again. -/
theorem staffs_recordProbe (spec : ProbeAttachSpec) (details : ProbeDetails) :
    Keeps Staffs (runPlan [pendingNode e spec, attachNode e spec, finaliseNode e]
      { details := some details }) := by
  rw [runPlan_cons _ _ (by simp [pendingNode])]
  intro w hs
  rw [bind_apply]
  cases h : (pendingNode e spec).exec { details := some details } w with
  | err err w' =>
    rcases bind_eq_err.1 h with hb | ⟨_, _, hb, g⟩
    · cases hb
    · cases hb
      rcases bind_eq_err.1 g with g | ⟨l, w1, -, g1⟩
      · exact staffs_of_store_eq (by rw [primErr_eq_err g]; rfl) hs
      · cases g1
  | ok b w' =>
    obtain ⟨hrec, rfl, rfl⟩ := pendingNode_eq_ok.1 h
    set l := pendingProbe e spec w details with hl
    obtain ⟨hids, hprog⟩ := linkRowOK_iff.1 hrec.creates.row
    have hadded : (w.recorded l).store.Staffed := by
      refine hs.addLink (linkRowOK_iff.2 ⟨fun r hr => ⟨(hids r hr).1, (hids r hr).2.1, ?_⟩,
        hprog⟩) ?_ hrec.creates.kind
      · exact Or.inr (hrec.pinPath r hr)
      · cases details with
        | kprobe f o ret => cases ret <;> rfl
        | uprobe t f o pid c ret => cases ret <;> rfl
        | _ => rfl
    have hfresh : ∀ d ∈ (w.recorded l).store.details, d.id ≠ l.id := by
      intro d hd
      obtain ⟨r, hr, hid, -⟩ := hs.consistent.detailLink d hd
      exact hid ▸ (hids r hr).1
    have hrest : Keeps (StaffsBut l.id) (onErr
        (runPlan [attachNode e spec, finaliseNode e] { details := some details, pending := some l })
        (forEach (fun a => ignore a)
          ((pendingNode e spec).undo { details := some details, pending := some l }))) := by
      refine (staffsBut_attach spec l.id _).onErr (.forEach fun a ha => ?_)
      obtain rfl := mem_singleton.1 ha
      exact (staffsBut_deleteLink l.id).ignore
    exact (hrest _ ⟨hadded, hfresh⟩).1

/-- **An attach of any kind** leaves every dispatcher with a member. -/
theorem staffs_attachAny (scope : Bool) (spec : AnyAttachSpec) :
    Keeps Staffs (attachAny e scope spec) := by
  cases spec with
  | dispatcher spec => exact staffs_attach spec
  | tcx spec =>
    exact staffs_query.mapErr.bind fun prog => (Keeps.lift _).bind fun _ => staffs_attachTCX spec
  | probe spec =>
    refine staffs_query.mapErr.bind fun prog => (Keeps.lift _).bind fun _ => ?_
    refine .bind ?_ fun b => ?_
    · unfold simpleAttachPlan
      rw [runPlan_cons _ _ (by simp [prepareNode])]
      refine .bind_of (P := fun b => ∃ details, b = { details := some details }) ?_ ?_ ?_
      · refine staffs_query.mapErr.bind fun prog => .bind ?_ fun tps =>
          (Keeps.lift _).bind fun details => Keeps.pure _
        cases spec.target with
        | tracepoint group name =>
          exact .mapErr (staffs_of_sameStore (sameStore_prim fun _ => .some rfl))
        | kprobe | uprobe | fentry | fexit => exact .pure _
      · intro w b w' h
        obtain ⟨details, -, rfl, -⟩ := prepareNode_eq_ok.1 h
        exact ⟨details, rfl⟩
      · rintro b ⟨details, rfl⟩
        exact (staffs_recordProbe spec details).onErr (.pure ())
    · cases b.link with
      | none => exact .fail _
      | some link => exact .pure _

end Bpfman
