import Bpfman.Rebuilt
import Mathlib.Logic.Relation

/-!
# The dispatcher invariant

Four rebuild routines build the kernel configuration, the slot attachments and the stored rows
separately from one sorted list of slots. The invariant says that the three agree: the rows of an
attach point are numbered from zero in the order of their priorities, the attached dispatcher
program was loaded with one enabled slot and one mask per row, and the extension in slot `i` is the
program of the row at position `i`.

* `Rebuilt.dispatcherOK` — a rebuild establishes it at its attach point;
* `DispatcherOK.frame` — an operation elsewhere keeps it;
* `inv_attach`, `inv_detach` — every successful attach and detach keeps it;
* `dispatcherOK_of_run` — it holds after every run.
-/

namespace Bpfman

open Fallible Proc List Store

variable {m : MemberRow} {ord : RowOrder} {slots : List RebuildSlot} {link : LinkRecord} {w₁ :
  World} {s : Store} {l : LinkRow} {id : LinkID} {snap : Option DispatcherSnapshot} {spec :
  AttachSpec} {rt : DispatcherRuntime} {p : RebuildPlan}

/-! ## The invariant -/

/-- The slot of one member: its mask in the config, its program in the slot, its pin in the
record. -/
structure SlotOK (w : World) (row : DispatcherRow) (P : Prog) (cfg : Config) (m : MemberRow) :
    Prop where
  mask : ∃ mask, proceedOnMask m.detail.key.type m.detail.proceedOn = .ok mask ∧
    cfg.chainCallActions[m.detail.position]? = some mask
  extension : ∃ id q,
    w.link? (.extension row.key row.revision m.detail.position) =
      some (.extension id P m.detail.position q) ∧ q.id = m.link.programID
  pinPath : m.link.pinPath = some (.extension row.key row.revision m.detail.position)

/-- The program the outer attachment of a dispatcher row runs agrees with the member rows. -/
structure ProgramOK (w : World) (row : DispatcherRow) (P : Prog) (cfg : Config) : Prop where
  runs : Runs w row.key (Store.dispatcherRuntime row) P
  pinned : w.prog? (.dispatcher row.key row.revision) = some P
  config : P.config = some cfg
  enabled : cfg.numProgsEnabled = (w.store.memberRows row.key).length
  slots : ∀ m ∈ w.store.memberRows row.key, SlotOK w row P cfg m

/-- One dispatcher of the store and its members. -/
structure DispatcherOK (w : World) (row : DispatcherRow) : Prop where
  nonempty : 1 ≤ (w.store.memberRows row.key).length
  le_max : (w.store.memberRows row.key).length ≤ maxPrograms
  positions : ((w.store.memberRows row.key).map (·.detail.position)).Perm
    (range (w.store.memberRows row.key).length)
  priorities : ∀ a ∈ w.store.memberRows row.key, ∀ b ∈ w.store.memberRows row.key,
    a.detail.position ≤ b.detail.position → a.detail.priority ≤ b.detail.priority
  program : ∃ P cfg, ProgramOK w row P cfg

/-- What every successful attach and detach keeps. -/
structure Inv (w : World) : Prop where
  store : w.store.Consistent
  /-- A program pin holds the program it is named after. -/
  pins : ∀ id q, w.prog? (.prog id) = some q → q.id = id
  pinPath : ∀ p ∈ w.store.programs, p.pinPath = .prog p.programID
  /-- The pins of other links are not those of a dispatcher. -/
  others : ∀ l ∈ w.store.links, ¬ (l.kind = .xdp ∨ l.kind = .tc) → ∀ p, l.pinPath = some p →
    ∀ key, ¬ p.of key
  dispatchers : ∀ row ∈ w.store.dispatchers, DispatcherOK w row

variable {e : Env} {w w' : World} {key : Key} {r : Nat}

/-! ## A rebuild establishes it -/

section Rebuilt

variable {p : RebuildPlan} {ps : List Prog} {rt : DispatcherRuntime}

/-- The slots name programs by their own pins. -/
def NamesPins (slots : List RebuildSlot) : Prop := ∀ s ∈ slots, s.progPinPath = .prog s.programID

theorem Rebuilt.positions (h : Rebuilt e p w w' ps rt) (hs' : w'.store.Consistent) :
    (w'.store.memberRows p.key).map (·.detail.position) = range p.slots.length := by
  obtain ⟨ns, hns, -, hd, -⟩ := h.store.details
  have hmap : (w'.store.memberRows p.key).map (·.detail) = ns.map (·.detail p.key rt) := by
    rw [memberRows_map_detail hs', hd]
  have hpos : (w'.store.memberRows p.key).map (·.detail.position) =
      ns.map (fun n => n.spec.position) := by
    have := congrArg (map DetailRow.position) hmap
    simpa [map_map, Function.comp_def, NewMember.detail, memberDetailRow] using this
  rw [hpos]
  refine ext_getElem? fun i => ?_
  have hi : ((ns[i]?).map (·.spec)).map (·.position) =
      ((p.slots[i]?).map (memberSpec e p.key p.revision i)).map (·.position) := by rw [hns i]
  rw [Option.map_map, Option.map_map] at hi
  rw [getElem?_map]
  refine hi.trans ?_
  by_cases hlt : i < p.slots.length
  · rw [getElem?_eq_getElem hlt, getElem?_range hlt]
    rfl
  · rw [getElem?_eq_none_iff.2 (by omega), getElem?_eq_none_iff.2 (by simpa using hlt)]
    rfl

theorem Rebuilt.length_memberRows (h : Rebuilt e p w w' ps rt) (hs' : w'.store.Consistent) :
    (w'.store.memberRows p.key).length = p.slots.length := by
  have := congrArg length (h.positions hs')
  simpa using this

theorem Rebuilt.opened (h : Rebuilt e p w w' ps rt) (hn : NamesPins p.slots)
    (hpins : ∀ id q, w.prog? (.prog id) = some q → q.id = id) {i : Nat} {slot : RebuildSlot}
    (hi : p.slots[i]? = some slot) : ∃ q, ps[i]? = some q ∧ q.id = slot.programID := by
  obtain ⟨q, hq, hopen⟩ := Table.exists_right h.opens hi
  refine ⟨q, hq, ?_⟩
  rw [hn slot (mem_of_getElem? hi), loaded_prog?, if_neg (by simp)] at hopen
  exact hpins _ _ hopen

theorem Rebuilt.slotOK (h : Rebuilt e p w w' ps rt) (hcfg : ConfigFor p.config p.slots)
    (hn : NamesPins p.slots) (hb : MasksFit p.slots)
    (hpins : ∀ id q, w.prog? (.prog id) = some q → q.id = id) {i : Nat}
    {slot : RebuildSlot} (hw : Written e p rt i slot m) :
    SlotOK w' (dispatcherRow (p.spec e rt)) (p.disp e) p.config m := by
  have hkey : m.detail.key = p.key := by rw [hw.detail]; rfl
  have hpos : m.detail.position = i := by rw [hw.detail]; rfl
  obtain ⟨q, hq, hid⟩ := h.opened hn hpins hw.at_slot
  refine ⟨⟨slot.proceedOn, ?_, ?_⟩, ⟨e.linkID (.extension p.key p.revision i), q, ?_, ?_⟩, ?_⟩
  · rw [hkey]
    exact proceedOnMask_actions (hb slot (mem_of_getElem? hw.at_slot)) hw.codes
  · rw [hpos]
    exact hcfg.actions i slot hw.at_slot
  · rw [hpos]
    exact h.extension i q hq
  · rw [hw.link]
    exact hid
  · rw [hw.link, hpos]
    rfl

/-- **A rebuild establishes the invariant** at its attach point. -/
theorem Rebuilt.dispatcherOK (h : Rebuilt e p w w' ps rt) (hs' : w'.store.Consistent)
    (hcfg : ConfigFor p.config p.slots)
    (hsorted : p.slots.Pairwise fun a b => slotKey a ≤ slotKey b) (hn : NamesPins p.slots)
    (hb : MasksFit p.slots) (hpins : ∀ id q, w.prog? (.prog id) = some q → q.id = id) :
    DispatcherOK w' (dispatcherRow (p.spec e rt)) := by
  have hkey : (dispatcherRow (p.spec e rt)).key = p.key := rfl
  have hlen := h.length_memberRows hs'
  refine ⟨?_, ?_, ?_, ?_, p.disp e, p.config, ?_⟩
  · rw [hkey, hlen]
    exact hcfg.pos
  · rw [hkey, hlen]
    exact hcfg.le_max
  · rw [hkey, h.positions hs', hlen]
  · intro a ha b hbm hle
    obtain ⟨i, sa, hwa⟩ := h.store.written hs' ha
    obtain ⟨j, sb, hwb⟩ := h.store.written hs' hbm
    have hpa : a.detail.priority = sa.priority := by rw [hwa.detail]; rfl
    have hpb : b.detail.priority = sb.priority := by rw [hwb.detail]; rfl
    have hia : a.detail.position = i := by rw [hwa.detail]; rfl
    have hjb : b.detail.position = j := by rw [hwb.detail]; rfl
    rw [hia, hjb] at hle
    rw [hpa, hpb]
    rcases hle.lt_or_eq with hlt | rfl
    · exact priority_le_of_slotKey (Table.pairwise_getElem? hsorted hlt hwa.at_slot hwb.at_slot)
    · rw [Option.some.inj (hwa.at_slot.symm.trans hwb.at_slot)]
  · refine ⟨h.runs, h.pinned, rfl, hcfg.enabled.trans hlen.symm, fun m hm => ?_⟩
    obtain ⟨i, slot, hw⟩ := h.store.written hs' hm
    exact h.slotOK hcfg hn hb hpins hw

end Rebuilt

/-! ## Operations elsewhere keep it -/

/-- **The frame of a dispatcher**: its rows, its pins, its outer attachment. -/
theorem DispatcherOK.frame {row : DispatcherRow} (h : DispatcherOK w row)
    (hrows : w'.store.memberRows row.key = w.store.memberRows row.key)
    (hlink : ∀ q, q.of row.key → w'.link? q = w.link? q)
    (hprog : ∀ r, w'.prog? (.dispatcher row.key r) = w.prog? (.dispatcher row.key r))
    (hfilters : ∀ f : Filter, f.key = row.key → f ∈ w.filters → f ∈ w'.filters) :
    DispatcherOK w' row := by
  obtain ⟨P, cfg, hP⟩ := h.program
  refine ⟨hrows ▸ h.nonempty, hrows ▸ h.le_max, hrows ▸ h.positions, hrows ▸ h.priorities, P, cfg,
    hP.runs.frame (hlink _ (.inl rfl)) hfilters, ?_, hP.config, hrows ▸ hP.enabled, ?_⟩
  · rw [hprog]
    exact hP.pinned
  · intro m hm
    rw [hrows] at hm
    have hslot := hP.slots m hm
    refine ⟨hslot.mask, ?_, hslot.pinPath⟩
    rw [hlink _ (.inr ⟨_, _, rfl⟩)]
    exact hslot.extension

/-- What `At` leaves of another attach point. -/
theorem DispatcherOK.of_at {row : DispatcherRow} (h : DispatcherOK w row) (hat : At key w w')
    (hne : row.key ≠ key) (hrows : w'.store.memberRows row.key = w.store.memberRows row.key) :
    DispatcherOK w' row := by
  refine h.frame hrows (fun q hq => ?_) (fun r => ?_) fun f hf hm => ?_
  · refine hat.link q ?_ ?_
    · rintro rfl
      rcases hq with hq | ⟨r, i, hq⟩
      · exact hne (LinkPath.dispatcherLink.inj hq).symm
      · cases hq
    · rintro r i rfl
      rcases hq with hq | ⟨r, i, hq⟩
      · cases hq
      · exact hne (LinkPath.extension.inj hq).1.symm
  · refine hat.prog _ fun r' heq => ?_
    exact hne (ProgPinPath.dispatcher.inj heq).1
  · exact (hat.filters f (hf ▸ hne)).2 hm

/-! ## The slots of a rebuild -/

/-- A member read from the store names its program by its own pin, and its mask has 32 bits. -/
theorem Inv.member (hi : Inv w) {snap : DispatcherSnapshot}
    (hs : w.store.getDispatcherSnapshot ord key = .ok snap) {m : DispatcherMember}
    (hm : m ∈ snap.members) :
    m.progPinPath = .prog m.programID ∧ ∀ b, m.proceedOn.testBit b = true → b < 32 := by
  obtain ⟨row, hrow, hdec⟩ := exists_row_of_member hs hm
  obtain ⟨hmr, -⟩ := (mem_memberRows hi.store).1 hrow
  refine ⟨?_, fun b hb => proceedOnMask_bit_lt hdec.mask hb⟩
  rw [hdec.progPinPath, hi.pinPath _ hmr.program, hmr.program_id, hdec.programID]

theorem Inv.runs (hi : Inv w) {snap : DispatcherSnapshot}
    (hs : w.store.getDispatcherSnapshot ord key = .ok snap) : ∃ Q, Runs w key snap.runtime Q := by
  obtain ⟨row, hrow, rfl, -, -, hrt, -⟩ := getDispatcherSnapshot_eq_ok hs
  obtain ⟨P, cfg, hP⟩ := (hi.dispatchers row hrow).program
  exact ⟨P, hrt ▸ hP.runs⟩

theorem runs_filled {Q : Prog}
    (h : Runs w p.key rt Q) (ps : List Prog) : Runs (p.filled e w ps) p.key rt Q := by
  refine h.frame ?_ fun f _ hf => hf
  rw [RebuildPlan.filled, link?_addExts]
  rfl

/-! ## Attach -/

/-- What a successful attach did. -/
structure AttachRun (e : Env) (spec : AttachSpec) (w w' : World) (key : Key)
    (snap : Option DispatcherSnapshot) (a : RebuildArgs) (cfg : Config) (ps : List Prog)
    (rt : DispatcherRuntime) : Prop where
  point : attachPoint e spec = some key
  snapshot : (∃ s, snap = some s ∧ w.store.getDispatcherSnapshot e.rowOrder key = .ok s) ∨
    (snap = none ∧ ∀ row ∈ w.store.dispatchers, row.key ≠ key)
  programID : a.programID = spec.spec.programID
  pinPath : a.progPinPath = .prog a.programID
  mask : proceedOnMask key.type spec.proceedOn = .ok a.proceedOn
  config : ConfigFor cfg (a.slots snap)
  rebuilt : Rebuilt e ((spec.kind e).plan e key snap (a.slots snap) cfg) w w' ps rt
  frame : At key w w'
  dropped : ∀ s, snap = some s → e.fails (.removeAll (.revision key s.revision)) = false →
    w'.Unpinned key s.revision

theorem configFor_attach {cfg : Config}
    (h : (spec.kind e).config slots = .ok cfg) : ConfigFor cfg slots := by
  cases spec with
  | xdp s => exact configFor_of (.inl h)
  | tc d s => exact configFor_of (.inr h)

theorem keeps_at_dropOldRevision (snap : Option DispatcherSnapshot) :
    Keeps (At key) (dropOldRevision e key snap) := by
  cases snap with
  | none => exact Keeps.pure ()
  | some s => exact keeps_at_dropRevision s.revision

theorem dropped_of_dropOldRevision
    (h : dropOldRevision e key snap w = .ok () w') : Dropped key (snap.map (·.revision)) w w' := by
  cases snap with
  | none =>
    cases h
    rfl
  | some s => exact dropRevision_eq_ok h

theorem attachRevision_ne {o : Nat}
    (h : snap.map (·.revision) = some o) : attachRevision snap ≠ o := by
  cases snap with
  | none => cases h
  | some s =>
    cases h
    exact nextRevision_ne _

theorem Inv.swapDone_attach (hi : Inv w) {cfg : Config} (htype : key.type = spec.dispatcherType)
    (hsnap : ∀ s, snap = some s → w.store.getDispatcherSnapshot e.rowOrder key = .ok s)
    (hp : p = (spec.kind e).plan e key snap slots cfg) {ps : List Prog} {w2 : World}
    (h : p.swap.swap (p.disp e).id (p.filled e w ps) = .ok rt w2) :
    SwapDone p.key rt (p.disp e) (p.filled e w ps) w2 := by
  have hpk : p.key = key := by rw [hp]; rfl
  have hold : ∀ s, snap = some s → ∃ Q, Runs (p.filled e w ps) key s.runtime Q := by
    intro s hs
    obtain ⟨Q, hQ⟩ := hi.runs (hsnap s hs)
    exact ⟨Q, hpk ▸ runs_filled (p := p) (hpk ▸ hQ) ps⟩
  have hdisp := mem_filled_disp (e := e) (p := p) w ps
  subst hp
  exact Bpfman.swapDone_attach htype hdisp hold h

theorem attachRun_named (hi : Inv w) (h : attach e spec w = .ok link w') :
    ∃ key snap a cfg ps rt, AttachRun e spec w w' key snap a cfg ps rt ∧
      ∃ p ∈ w.store.programs, p.programID = a.programID ∧ p.programName = a.programName ∧
        p.pinPath = a.progPinPath := by
  obtain ⟨prog, ifindex, mask, res, hp, -, hif, hm, hr, -⟩ := attach_eq_ok h
  obtain ⟨nsid, snap, cfg, completed, w₁, hns, hkey, hsnap, -, hcfg, hreb, hdrop, -⟩ :=
    rebuildForAttach_eq_ok hr
  obtain ⟨-, hsn⟩ := existingSnapshot_eq_ok hsnap
  have htype : res.key.type = spec.dispatcherType := by
    rw [hkey]
    exact spec.kind_type
  obtain ⟨p, hpm, hpid, -, hname, hpin⟩ := Store.getProgram_eq_ok hp
  have hsnap' : (∃ s, snap = some s ∧ w.store.getDispatcherSnapshot e.rowOrder res.key = .ok s) ∨
      (snap = none ∧ ∀ row ∈ w.store.dispatchers, row.key ≠ res.key) := by
    refine hsn.imp_right ?_
    rintro ⟨rfl, er, her⟩
    refine ⟨rfl, fun row hrow hrk => ?_⟩
    obtain ⟨s, hs⟩ := getDispatcherSnapshot_isOk hi.store e.rowOrder ⟨row, hrow, hrk⟩
    rw [hs] at her
    cases her
  have hsome : ∀ s, snap = some s → w.store.getDispatcherSnapshot e.rowOrder res.key = .ok s := by
    intro s hs
    rcases hsn with ⟨s', hs', hget⟩ | ⟨hnone, -⟩
    · rw [hs] at hs'
      cases hs'
      exact hget
    · rw [hs] at hnone
      cases hnone
  obtain ⟨ps, rt, hrebuilt⟩ := rebuilt_of_ok (fun o ho => attachRevision_ne ho)
    (fun ps rt w2 hsw => hi.swapDone_attach htype hsome rfl hsw) hreb
    (dropped_of_dropOldRevision hdrop)
  have hpoint : attachPoint e spec = some res.key := by
    have hns : e.nsid spec.spec.netns = some nsid := hns
    simp only [attachPoint, hns, hif, Option.bind_eq_bind, Option.bind_some, hkey, spec.kind_type]
    rfl
  refine ⟨res.key, snap, _, cfg, ps, rt, ⟨hpoint, hsnap', rfl, ?_, ?_, configFor_attach hcfg,
    hrebuilt, ?_, fun s hs hf => ?_⟩, p, hpm, hpid, hname.symm, hpin.symm⟩
  · rw [show (rebuildArgs spec.spec ifindex mask prog).progPinPath = prog.pinPath from rfl, hpin,
      hi.pinPath p hpm, hpid]
    rfl
  · rw [htype]
    exact hm
  · exact trans_of (At res.key) ((keeps_at_rebuildDispatcher (local_attachPlan ..)).ok hreb)
      ((keeps_at_dropOldRevision snap).ok hdrop)
  · subst hs
    exact unpinned_of_dropRevision hf hdrop

theorem attachRun_of_ok (hi : Inv w) (h : attach e spec w = .ok link w') :
    ∃ key snap a cfg ps rt, AttachRun e spec w w' key snap a cfg ps rt := by
  obtain ⟨key, snap, a, cfg, ps, rt, hrun, -⟩ := attachRun_named hi h
  exact ⟨key, snap, a, cfg, ps, rt, hrun⟩

theorem NamesPins.sort (h : NamesPins slots) :
    NamesPins (sortRebuildSlots slots) := fun s hs => h s (mem_sortRebuildSlots.1 hs)

theorem MasksFit.sort (h : MasksFit slots) :
    MasksFit (sortRebuildSlots slots) := fun s hs => h s (mem_sortRebuildSlots.1 hs)

theorem mem_allSlots {a : RebuildArgs} {s : RebuildSlot} :
    s ∈ a.allSlots snap ↔ (∃ sn, snap = some sn ∧ ∃ m ∈ sn.members, attachSlot m = s) ∨
      s = a.newSlot := by
  cases snap <;> simp [RebuildArgs.allSlots]

section AttachRun

variable {spec : AttachSpec} {snap : Option DispatcherSnapshot} {a : RebuildArgs} {cfg : Config}
  {ps : List Prog} {rt : DispatcherRuntime}

theorem AttachRun.get (h : AttachRun e spec w w' key snap a cfg ps rt) {s : DispatcherSnapshot}
    (hs : snap = some s) : w.store.getDispatcherSnapshot e.rowOrder key = .ok s := by
  rcases h.snapshot with ⟨s', hs', hget⟩ | ⟨hnone, -⟩
  · rw [hs] at hs'
    cases hs'
    exact hget
  · rw [hs] at hnone
    cases hnone

theorem AttachRun.namesPins (h : AttachRun e spec w w' key snap a cfg ps rt) (hi : Inv w) :
    NamesPins (a.slots snap) := by
  refine NamesPins.sort fun s hs => ?_
  rcases mem_allSlots.1 hs with ⟨sn, hsn, m, hm, rfl⟩ | rfl
  · exact (hi.member (h.get hsn) hm).1
  · exact h.pinPath

theorem AttachRun.masksFit (h : AttachRun e spec w w' key snap a cfg ps rt) (hi : Inv w) :
    MasksFit (a.slots snap) := by
  refine MasksFit.sort fun s hs => ?_
  rcases mem_allSlots.1 hs with ⟨sn, hsn, m, hm, rfl⟩ | rfl
  · exact (hi.member (h.get hsn) hm).2
  · exact fun b hb => proceedOnMask_bit_lt h.mask hb

end AttachRun

/-- A rebuild at `p.key` that starts from a world which differs from an invariant one at `p.key`
only keeps the invariant. -/
theorem inv_of_rebuilt {ps : List Prog}
    (hi : Inv w) (hst : w₁.store = w.store) (hpins : ∀ id, w₁.prog? (.prog id) = w.prog? (.prog id))
    (hat : At p.key w w') (hr : Rebuilt e p w₁ w' ps rt) (hcfg : ConfigFor p.config p.slots)
    (hsorted : p.slots.Pairwise fun a b => slotKey a ≤ slotKey b) (hn : NamesPins p.slots)
    (hb : MasksFit p.slots) : Inv w' := by
  have hs' : w'.store.Consistent := hr.store.consistent (hst ▸ hi.store) hb
  obtain ⟨completed, hrep⟩ := hr.store
  rw [hst] at hrep
  obtain ⟨ns, -, -, hl, -, hdisp, -⟩ := replace_spec hrep
  refine ⟨hs', ?_, ?_, ?_, ?_⟩
  · intro id q hq
    exact hi.pins id q (by rwa [hat.prog _ (by simp)] at hq)
  · rw [hat.programs]
    exact hi.pinPath
  · intro l hlm hk
    rw [hl] at hlm
    rcases mem_append.1 hlm with hlm | hlm
    · exact hi.others l (mem_filter.1 hlm).1 hk
    · obtain ⟨n, -, rfl⟩ := mem_map.1 hlm
      exact absurd (linkKind_dispatcher p.key.type) hk
  · intro row hrow
    rw [hdisp] at hrow
    rcases mem_append.1 hrow with hrow | hrow
    · obtain ⟨hrow, hne⟩ := mem_filter.1 hrow
      have hne : row.key ≠ p.key := of_decide_eq_true hne
      refine (hi.dispatchers row hrow).of_at hat hne ?_
      exact (sameAt_replace hi.store hrep hne).memberRows_eq hi.store hs'
    · rw [mem_singleton.1 hrow]
      refine hr.dispatcherOK hs' hcfg hsorted hn hb fun id q hq => ?_
      exact hi.pins id q (hpins id ▸ hq)

/-- **A successful attach keeps the invariant.** -/
theorem inv_attach (hi : Inv w) (h : attach e spec w = .ok link w') : Inv w' := by
  obtain ⟨key, snap, a, cfg, ps, rt, hrun⟩ := attachRun_of_ok hi h
  exact inv_of_rebuilt hi rfl (fun _ => rfl) hrun.frame hrun.rebuilt hrun.config
    (sortRebuildSlots_sorted _) (hrun.namesPins hi) (hrun.masksFit hi)

/-! ## Detach -/

/-- What a successful detach did: delete a plain link, remove a dispatcher, or rebuild it. -/
inductive DetachRun (e : Env) (id : LinkID) (w w' : World) : Prop
  | plain (l : LinkRow) (hl : l ∈ w.store.links) (hid : l.id = id)
      (hkind : ¬ (l.kind = .xdp ∨ l.kind = .tc)) (hstore : w'.store = w.store.deleteLinks [id])
      (hprog : w'.progPins = w.progPins) (hfilters : w'.filters = w.filters)
      (hlink : ∀ key q, q.of key → w'.link? q = w.link? q)
  | removed (m : MemberRow) (snap : DispatcherSnapshot)
      (hm : m ∈ w.store.memberRows m.detail.key) (hid : m.link.id = id)
      (hsnap : w.store.getDispatcherSnapshot e.rowOrder m.detail.key = .ok snap)
      (hrem : removesDispatcher e (snap.without id) = true)
      (hstore : w.store.deleteDispatcherSnapshot m.detail.key = .ok w'.store)
      (frame : At m.detail.key w w') (hpins : ∀ k n, w.Unpinned k n → w'.Unpinned k n)
      (hdrop : e.fails (.removeAll (.revision m.detail.key snap.revision)) = false →
        w'.Unpinned m.detail.key snap.revision)
  | rebuilt (m : MemberRow) (snap : DispatcherSnapshot) (cfg : Config) (ps : List Prog)
      (rt : DispatcherRuntime) (w₁ : World)
      (hm : m ∈ w.store.memberRows m.detail.key) (hid : m.link.id = id)
      (hsnap : w.store.getDispatcherSnapshot e.rowOrder m.detail.key = .ok snap)
      (hrem : removesDispatcher e (snap.without id) = false)
      (hstore : w₁.store = w.store) (hfilters : w₁.filters = w.filters)
      (hprog : w₁.progPins = w.progPins)
      (config : ConfigFor cfg (snap.without id).slots)
      (hreb : Rebuilt e ((detachKind e m.detail.key).plan e (snap.without id)
        (snap.without id).slots (nextRevision snap.revision) cfg) w₁ w' ps rt)
      (frame : At m.detail.key w w') (hpins : ∀ k n, w.Unpinned k n → w₁.Unpinned k n)
      (hdrop : e.fails (.removeAll (.revision m.detail.key snap.revision)) = false →
        w'.Unpinned m.detail.key snap.revision)

theorem extractDispatcherKey_linkDetails (d : DetailRow) (r : DispatcherRow) :
    extractDispatcherKey (some (linkDetails d r)) = some d.key := by
  obtain ⟨id, ⟨type, nsid, ifindex⟩, ifname, pr, po, on, ns, dp⟩ := d
  cases type <;> rfl

theorem exists_memberRow_of_linkRow (hs : s.Consistent) {d : DetailRow}
    {r : DispatcherRow} (h : s.IsLinkRow l d r) :
    ∃ m ∈ s.memberRows d.key, m.detail = d ∧ m.link = l := by
  obtain ⟨m, hm, rfl⟩ := exists_memberRow hs h.detail
  refine ⟨m, (mem_memberRows hs).2 ⟨hm, rfl⟩, rfl, ?_⟩
  exact Table.eq_of_key hs.linkIDs hm.link h.link (hm.link_id.trans h.detail_id)

theorem configFor_detach {key : Key} {cfg : Config}
    (h : (detachKind e key).config slots = .ok cfg) : ConfigFor cfg slots := by
  unfold detachKind at h
  split at h
  · exact configFor_of (.inl h)
  · exact configFor_of (.inr h)

theorem Inv.memberPin (hi : Inv w) (hm : m ∈ w.store.memberRows key) :
    ∃ r i, m.link.pinPath = some (.extension key r i) := by
  obtain ⟨hrow, hk⟩ := (mem_memberRows hi.store).1 hm
  obtain ⟨row, hrowm, hrk, -⟩ := hi.store.detailDispatcher _ hrow.detail
  obtain ⟨P, cfg, hP⟩ := (hi.dispatchers row hrowm).program
  have hkey : row.key = key := hrk.trans hk
  exact ⟨_, _, hkey ▸ (hP.slots m (hkey.symm ▸ hm)).pinPath⟩

theorem deleteLink_eq_ok (h : deleteLink e id w = .ok () w') :
    w' = { w with store := w.store.deleteLinks [id] } := by
  have h1 := (primErr_eq_ok.1 h).2
  unfold Store.deleteLink at h1
  split at h1
  · cases h1
  · split at h1
    · cases h1
    · cases h1
      rfl

theorem detachRun_plain (hi : Inv w) (hl : l ∈ w.store.links)
    (hkind : ¬ (l.kind = .xdp ∨ l.kind = .tc))
    {details : LinkDetails} (hpin : detachPin e (linkRecord l (some details)) w = .ok () w₁)
    (hdel : deleteLink e l.id w₁ = .ok () w') : DetachRun e l.id w w' := by
  obtain rfl := deleteLink_eq_ok hdel
  cases hp : l.pinPath with
  | none =>
    have hw : w₁ = w := by
      simp only [detachPin, linkRecord, hp] at hpin
      cases hpin
      rfl
    subst hw
    exact .plain l hl rfl hkind rfl rfl rfl fun _ _ _ => rfl
  | some pin =>
    simp only [detachPin, linkRecord, hp] at hpin
    rw [detachLink_eq_ok hpin]
    refine .plain l hl rfl hkind rfl rfl rfl fun key q hq => ?_
    have hne : q ≠ pin := by
      rintro rfl
      exact hi.others l hl hkind q hp key hq
    exact (World.link?_eraseLink pin q).trans (if_neg hne)

theorem Inv.swapDone_detach (hi : Inv w) {snap : DispatcherSnapshot} {cfg : Config}
    (hsnap : w.store.getDispatcherSnapshot ord key = .ok snap)
    (hlink : w₁.link? (.dispatcherLink key) = w.link? (.dispatcherLink key))
    (hfilters : w₁.filters = w.filters)
    (hp : p = (detachKind e key).plan e (snap.without id) slots r cfg) {ps : List Prog} {w2 : World}
    (h : p.swap.swap (p.disp e).id (p.filled e w₁ ps) = .ok rt w2) :
    SwapDone p.key rt (p.disp e) (p.filled e w₁ ps) w2 := by
  obtain ⟨row, -, -, hsk, -⟩ := getDispatcherSnapshot_eq_ok hsnap
  have hpk : p.key = key := by rw [hp]; exact hsk
  obtain ⟨Q, hQ⟩ := hi.runs hsnap
  have hQ1 : Runs w₁ p.key snap.runtime Q := hpk ▸ hQ.frame hlink fun f _ hf => hfilters ▸ hf
  have hold := runs_filled (e := e) (p := p) hQ1 ps
  have hdisp := mem_filled_disp (e := e) (p := p) w₁ ps
  subst hp
  obtain rfl : snap.key = key := hsk
  exact @Bpfman.swapDone_detach _ _ _ _ _ _ _ (snap.without id) _ hdisp ⟨Q, hold⟩ h

theorem detachRun_member (hi : Inv w) (hm : m ∈ w.store.memberRows m.detail.key)
    (hpin : ∃ pin, m.link.pinPath = some pin ∧ detachLink e pin w = .ok () w₁)
    (hreb : rebuildDispatcherForDetach e m.detail.key m.link.id w₁ = .ok () w') :
    DetachRun e m.link.id w w' := by
  obtain ⟨pin, hp, hdet⟩ := hpin
  obtain ⟨r, i, hmp⟩ := hi.memberPin hm
  obtain rfl : pin = .extension m.detail.key r i := Option.some.inj (hp.symm.trans hmp)
  have hw1 := detachLink_eq_ok hdet
  have hst : w₁.store = w.store := by rw [hw1]; rfl
  have hpp : w₁.progPins = w.progPins := by rw [hw1]; rfl
  have hfi : w₁.filters = w.filters := by rw [hw1]; rfl
  have hli : w₁.link? (.dispatcherLink m.detail.key) = w.link? (.dispatcherLink m.detail.key) := by
    rw [hw1]
    exact (World.link?_eraseLink _ _).trans (if_neg (by simp))
  have hat : At m.detail.key w w' :=
    trans_of _ ((keeps_at_detachLink (.inr ⟨r, i, rfl⟩)).ok hdet)
      ((keeps_at_rebuildDispatcherForDetach _ _).ok hreb)
  obtain ⟨snap, hsnap, hcases⟩ := rebuildDispatcherForDetach_cases hreb
  rw [hst] at hsnap hcases
  obtain ⟨row, -, -, hsk, -⟩ := getDispatcherSnapshot_eq_ok hsnap
  rcases hcases with ⟨hrem, hdel, hrun⟩ | ⟨hrem, hrest⟩
  · obtain ⟨hpins, hdrop⟩ := removeEmptyDispatcher_unpinned hrun
    exact .removed m snap hm rfl hsnap hrem hdel hat (fun k n hw => hpins k n (hw.detachLink hdet))
      (hsk ▸ hdrop)
  · obtain ⟨cfg, completed, w3, hcfg, hrb, hdrop⟩ := rebuildForDetach_eq_ok hrest
    obtain ⟨ps, rt, hrebuilt⟩ := @rebuilt_of_ok _ _ _ (some snap.revision) _ _ _ _
      (fun o ho => by cases ho; exact nextRevision_ne _)
      (fun ps rt w2 hsw => hi.swapDone_detach hsnap hli hfi rfl hsw) hrb
      (dropRevision_eq_ok hdrop)
    exact .rebuilt m snap cfg ps rt w₁ hm rfl hsnap hrem hst hfi hpp
      (configFor_detach hcfg) hrebuilt hat (fun k n hw => hw.detachLink hdet)
      (unpinned_of_dropRevision · (hsk ▸ hdrop))

theorem getLink_cases (hs : s.Consistent) {record : LinkRecord} (h : s.getLink id = .ok record) :
    (∃ l ∈ s.links, l.id = id ∧ ¬ (l.kind = .xdp ∨ l.kind = .tc) ∧
        (∃ details, record = linkRecord l (some details)) ∧ dispatcherKey record = none) ∨
      ∃ m ∈ s.memberRows m.detail.key, m.link.id = id ∧ record.id = id ∧
        record.pinPath = m.link.pinPath ∧ dispatcherKey record = some m.detail.key := by
  rcases (Store.getLink_eq_ok hs).1 h with
    ⟨l, hl, rfl, hkind, details, -, rfl⟩ | ⟨l, d, r, hlr, rfl, rfl⟩
  · exact .inl ⟨l, hl, rfl, hkind, ⟨details, rfl⟩, if_neg hkind⟩
  · obtain ⟨m, hm, rfl, rfl⟩ := exists_memberRow_of_linkRow hs hlr
    refine .inr ⟨m, hm, rfl, rfl, rfl, ?_⟩
    unfold dispatcherKey
    rw [if_pos (by
      have := linkKind_dispatcher m.detail.key.type
      rwa [← hlr.kind] at this)]
    exact extractDispatcherKey_linkDetails _ _

/-- **What a successful detach did.** -/
theorem detachRun_of_ok (hi : Inv w) (h : detach e id w = .ok () w') : DetachRun e id w w' := by
  obtain ⟨record, w₁, hget, hpin, hact⟩ := detach_eq_ok h
  rcases getLink_cases hi.store hget with
    ⟨l, hl, rfl, hkind, ⟨details, rfl⟩, hk⟩ | ⟨m, hm, rfl, hrid, hrp, hk⟩
  · rw [hk] at hact
    exact detachRun_plain hi hl hkind hpin hact
  · rw [hk, hrid] at hact
    obtain ⟨rev, i, hp⟩ := hi.memberPin hm
    refine detachRun_member hi hm ⟨_, hp, ?_⟩ hact
    simpa only [detachPin, hrp, hp] using hpin

theorem Inv.slots_detach (hi : Inv w) {snap : DispatcherSnapshot}
    (hs : w.store.getDispatcherSnapshot ord key = .ok snap) :
    NamesPins (snap.without id).slots ∧ MasksFit (snap.without id).slots := by
  have hmem : ∀ s ∈ (snap.without id).members.map detachSlot,
      ∃ m ∈ snap.members, detachSlot m = s := by
    intro s hs
    obtain ⟨m, hm, rfl⟩ := mem_map.1 hs
    exact ⟨m, (mem_filter.1 hm).1, rfl⟩
  refine ⟨NamesPins.sort fun s hs' => ?_, MasksFit.sort fun s hs' => ?_⟩
  · obtain ⟨m, hm, rfl⟩ := hmem s hs'
    exact (hi.member hs hm).1
  · obtain ⟨m, hm, rfl⟩ := hmem s hs'
    exact (hi.member hs hm).2

theorem detail_ne_of_plain (hs : s.Consistent) (hl : l ∈ s.links)
    (hkind : ¬ (l.kind = .xdp ∨ l.kind = .tc)) : ∀ d ∈ s.details, d.id ≠ l.id := by
  intro d hd hid
  obtain ⟨l', hl', hld, hk, -⟩ := hs.detailLink d hd
  obtain rfl := Table.eq_of_key hs.linkIDs hl' hl (hld.trans hid)
  exact hkind (hk ▸ linkKind_dispatcher _)

theorem sameAt_deletePlain (hs : s.Consistent) (hl : l ∈ s.links)
    (hkind : ¬ (l.kind = .xdp ∨ l.kind = .tc)) (key : Key) :
    SameAt key s (s.deleteLinks [l.id]) := by
  have hno := detail_ne_of_plain hs hl hkind
  have hdet : (s.deleteLinks [l.id]).details = s.details := by
    refine filter_eq_self.2 fun d hd => ?_
    simpa using hno d hd
  refine ⟨rfl, by rw [hdet], ?_, fun _ _ => Iff.rfl⟩
  intro d hd _ l' hl' hid
  refine mem_deleteLinks_links.2 ⟨hl', ?_⟩
  rw [mem_singleton, hid]
  exact hno d hd

/-- **A successful detach keeps the invariant.** -/
theorem inv_detach (hi : Inv w) (h : detach e id w = .ok () w') : Inv w' := by
  cases detachRun_of_ok hi h with
  | plain l hl hid hkind hstore hprog hfilters hlink =>
    subst hid
    have hs' : w'.store.Consistent := hstore ▸ hi.store.deleteLinks [l.id]
    have hpr : ∀ q, w'.prog? q = w.prog? q := fun q => by unfold World.prog?; rw [hprog]
    refine ⟨hs', fun i q hq => hi.pins i q (hpr _ ▸ hq), ?_, ?_, ?_⟩
    · rw [hstore]
      exact hi.pinPath
    · intro l' hl' hk'
      rw [hstore] at hl'
      exact hi.others l' (mem_deleteLinks_links.1 hl').1 hk'
    · intro row hrow
      rw [hstore] at hrow
      refine (hi.dispatchers row hrow).frame ?_ (hlink row.key) (fun _ => hpr _)
        fun f _ hf => hfilters ▸ hf
      have hsame : SameAt row.key w.store w'.store :=
        hstore ▸ sameAt_deletePlain hi.store hl hkind row.key
      exact hsame.memberRows_eq hi.store hs'
  | removed m snap hm hid hsnap hrem hstore frame =>
    have hs' := consistent_deleteSnapshot hi.store hstore
    refine ⟨hs', fun i q hq => hi.pins i q (frame.prog (.prog i) (by simp) ▸ hq), ?_, ?_, ?_⟩
    · rw [frame.programs]
      exact hi.pinPath
    · intro l hl hk
      rw [Store.deleteDispatcherSnapshot_eq_ok hstore] at hl
      exact hi.others l (mem_filter.1 hl).1 hk
    · intro row hrow
      rw [Store.deleteDispatcherSnapshot_eq_ok hstore] at hrow
      obtain ⟨hrow, hne⟩ := mem_filter.1 hrow
      have hne : row.key ≠ m.detail.key := of_decide_eq_true hne
      refine (hi.dispatchers row hrow).of_at frame hne ?_
      exact (sameAt_deleteSnapshot hi.store hstore hne).memberRows_eq hi.store hs'
  | rebuilt m snap cfg ps rt w₁ hm hid hsnap hrem hstore _ hprog config hreb frame =>
    obtain ⟨hn, hb⟩ : NamesPins (snap.without id).slots ∧ MasksFit (snap.without id).slots :=
      hi.slots_detach hsnap
    obtain ⟨row, -, -, hsk, -⟩ := getDispatcherSnapshot_eq_ok hsnap
    have hat : At (snap.without id).key w w' := hsk.symm ▸ frame
    exact inv_of_rebuilt hi hstore (fun i => by unfold World.prog?; rw [hprog]) hat hreb config
      (sortRebuildSlots_sorted _) hn hb

/-! ## Runs -/

/-- A successful attach or detach. -/
inductive Step : World → World → Prop
  | attach {e : Env} {spec : AttachSpec} {link : LinkRecord} {w w' : World}
      (h : attach e spec w = .ok link w') : Step w w'
  | detach {e : Env} {id : LinkID} {w w' : World} (h : detach e id w = .ok () w') : Step w w'

/-- A run of successful attaches and detaches. -/
abbrev Run : World → World → Prop := Relation.ReflTransGen Step

/-- A world before the first XDP or TC attach: programs are loaded and pinned, and there may be
links of other kinds. -/
structure Fresh (w : World) : Prop where
  programIDs : (w.store.programs.map (·.programID)).Nodup
  linkIDs : (w.store.links.map (·.id)).Nodup
  linkProgram : ∀ l ∈ w.store.links, ∃ p ∈ w.store.programs, p.programID = l.programID
  links : ∀ l ∈ w.store.links, ¬ (l.kind = .xdp ∨ l.kind = .tc) ∧
    ∀ p, l.pinPath = some p → ∀ key, ¬ p.of key
  detailed : ∀ l ∈ w.store.links, l.Detailed
  details : w.store.details = []
  dispatchers : w.store.dispatchers = []
  pins : ∀ id q, w.prog? (.prog id) = some q → q.id = id
  pinPath : ∀ p ∈ w.store.programs, p.pinPath = .prog p.programID

theorem Fresh.inv (h : Fresh w) : Inv w := by
  have hd : ∀ d ∈ w.store.details, False := fun d hd => by simp [h.details] at hd
  refine ⟨⟨h.programIDs, h.linkIDs, by simp [h.details], by simp [h.dispatchers],
    by simp [h.dispatchers], h.linkProgram, fun l hl hk => absurd hk (h.links l hl).1,
    fun d hdm => (hd d hdm).elim, fun d hdm => (hd d hdm).elim, fun d hdm => (hd d hdm).elim,
    fun d hdm => (hd d hdm).elim, fun d hdm => (hd d hdm).elim, h.detailed⟩, h.pins, h.pinPath,
    fun l hl _ => (h.links l hl).2, fun row hrow => ?_⟩
  simp [h.dispatchers] at hrow

theorem Step.of_attach (h : (Bpfman.attach e spec w).isOk = true) :
    Step w (Bpfman.attach e spec w).state := by
  obtain ⟨link, hl⟩ := Outcome.eq_ok_of_isOk h
  exact .attach hl

theorem Step.of_detach (h : (Bpfman.detach e id w).isOk = true) :
    Step w (Bpfman.detach e id w).state := by
  obtain ⟨_, hl⟩ := Outcome.eq_ok_of_isOk h
  exact .detach hl

/-! ## A sample world -/

namespace Sample

/-- Numbers that tell the dispatcher types apart. -/
def typeID : DispatcherType → Nat
  | .xdp => 0
  | .tcIngress => 1
  | .tcEgress => 2

/-- A machine with one interface, at time `now`, on which the calls in `faults` fail. -/
def env (now : Nat) (faults : List Call) : Env where
  fails c := decide (c ∈ faults)
  dispatcherID
    | .dispatcher k r => 1000 + 100 * typeID k.type + r
    | .prog id => id
  linkID
    | .dispatcherLink k => 5000 + typeID k.type
    | .extension k r i => 2000 + 1000 * typeID k.type + 20 * r + i
    | .link id => id
    | .tcx _ _ _ id => id
  filterHandle
    | .dispatcher _ r => r
    | .prog _ => 0
  loadID i := 100 * now + i
  mapID i _ := 100 * now + i
  live _ := true
  nsid _ := some 1
  netnsExists _ := true
  ifindex _ _ := some 3
  rowOrder := .stable
  now := now

def programRow (id : ProgramID) (name : String) (type : ProgramType) : ProgramRow :=
  { programID := id, programName := name, programType := type, pinPath := .prog id, mapSetID := id }

/-- Six loaded programs, three of each type. -/
def world : World where
  store :=
    { programs := [programRow 1 "a" .xdp, programRow 2 "b" .xdp, programRow 3 "c" .xdp,
        programRow 4 "a" .tc, programRow 5 "b" .tc, programRow 6 "c" .tc]
      mapSets := (range 7).map fun i => ⟨i, .mapDir i⟩ }
  progPins := (range 7).map fun i => (.prog i, ⟨i, none⟩)

/-- Attach program `id` at priority 50. -/
def xdp (id : ProgramID) (metadata : Labels) : AttachSpec :=
  .xdp ⟨id, "eth0", "", 50, [], metadata⟩

def tc (id : ProgramID) : AttachSpec := .tc .ingress ⟨id, "eth0", "", 50, [], []⟩

def xdpKey : Key := ⟨.xdp, 1, 3⟩

def tcKey : Key := ⟨.tcIngress, 1, 3⟩

theorem fresh : Fresh world where
  programIDs := by decide
  linkIDs := by decide
  linkProgram := by simp [world]
  links := by simp [world]
  detailed l hl := by cases hl
  details := rfl
  dispatchers := rfl
  pins id q h := by
    have hm : (ProgPinPath.prog id, q) ∈ world.progPins := Table.mem_of_lookup h
    simp only [world, mem_map, Prod.mk.injEq, ProgPinPath.prog.injEq] at hm
    obtain ⟨i, -, rfl, rfl⟩ := hm
    rfl
  pinPath := by decide

/-- The world after a list of attaches, one at each time from `now` on. -/
def attachAll : List AttachSpec → Nat → World → World
  | [], _, w => w
  | spec :: specs, now, w => attachAll specs (now + 1) (attach (env now []) spec w).state

/-- Whether all of them succeed. -/
def attachesOk : List AttachSpec → Nat → World → Bool
  | [], _, _ => true
  | spec :: specs, now, w => (attach (env now []) spec w).isOk &&
      attachesOk specs (now + 1) (attach (env now []) spec w).state

theorem run_attachAll : ∀ {specs : List AttachSpec} {now : Nat} {w : World},
    attachesOk specs now w = true → Run w (attachAll specs now w)
  | [], _, _, _ => .refl
  | spec :: specs, now, w, h => by
    obtain ⟨h1, h2⟩ := Bool.and_eq_true_iff.1 h
    exact .head (Step.of_attach h1) (run_attachAll h2)

/-- The sample world after a list of attaches. -/
def attached (specs : List AttachSpec) : World := attachAll specs 1 world

end Sample

/-! ## Every run keeps the invariant -/

theorem inv_step (hi : Inv w) (h : Step w w') : Inv w' := by
  cases h with
  | attach h => exact inv_attach hi h
  | detach h => exact inv_detach hi h

theorem inv_run (hi : Inv w) (h : Run w w') : Inv w' := by
  induction h with
  | refl => exact hi
  | tail _ hstep ih => exact inv_step ih hstep

/-- **After every run** of successful attaches and detaches, every dispatcher of the store agrees
with the attached program and its slots. -/
theorem dispatcherOK_of_run {w₀ : World} (h₀ : Fresh w₀) (h : Run w₀ w) :
    ∀ row ∈ w.store.dispatchers, DispatcherOK w row :=
  (inv_run h₀.inv h).dispatchers

/-- Three attaches on two dispatchers and a detach. -/
theorem dispatcherOK_of_run_sample :
    let w := (detach (Sample.env 4 []) 1 (Sample.attached [Sample.xdp 2 [], Sample.xdp 3 [],
      Sample.tc 4])).state
    w.store.dispatchers.map (·.key.type) = [.tcIngress, .xdp] ∧
      ∀ row ∈ w.store.dispatchers, DispatcherOK w row := by
  refine ⟨by decide +kernel, dispatcherOK_of_run Sample.fresh ?_⟩
  exact .tail (Sample.run_attachAll (by decide +kernel)) (Step.of_detach (by decide +kernel))

end Bpfman
