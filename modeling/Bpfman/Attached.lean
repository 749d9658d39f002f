import Bpfman.Detached

/-!
# What a successful attach leaves in the store

The counterpart of `Detached` for an attach to a dispatcher: the members of the attach point are
written anew, with a row for the new link. Nothing is assumed of the kernel or the pins.

* `attached_of_ok` — what a successful attach did to the store;
* `Attached.newLink` — the link it reports is the one written for the new slot.
-/

namespace Bpfman

open Fallible Store List

variable {e : Env} {w w' : World} {s s' : Store} {key : Key} {id : LinkID} {spec : AttachSpec}

/-! ## The place of the new slot -/

theorem foldl_last {α : Type} {P : α → Bool} (l : List α) :
    (∃ x ∈ l, P x = true) → ∃ j x, l[j]? = some x ∧ P x = true ∧
      l.zipIdx.foldl (fun pos x => if P x.1 then some x.2 else pos) none = some j := by
  induction l using reverseRecOn with
  | nil => simp
  | append_singleton l a ih =>
    intro hex
    rw [zipIdx_append, foldl_append]
    by_cases ha : P a = true
    · exact ⟨l.length, a, by simp, ha, by simp [ha]⟩
    · obtain ⟨x, hx, hP⟩ := hex
      have hxl : x ∈ l := by
        rcases mem_append.1 hx with hx | hx
        · exact hx
        · exact absurd (mem_singleton.1 hx ▸ hP) ha
      obtain ⟨j, y, hj, hy, hfold⟩ := ih ⟨x, hxl, hP⟩
      refine ⟨j, y, ?_, hy, by simp [ha, hfold]⟩
      rw [List.getElem?_append_left (List.getElem?_eq_some_iff.1 hj).1]
      exact hj

theorem getElem?_newSlotPosition (a : RebuildArgs) (snap : Option DispatcherSnapshot) :
    (a.slots snap)[newSlotPosition (a.slots snap)]? = some a.newSlot := by
  have hmem : a.newSlot ∈ a.slots snap := mem_sortRebuildSlots.2 (mem_allSlots.2 (Or.inr rfl))
  obtain ⟨j, x, hj, hx, hfold⟩ := foldl_last (P := fun s => s.existingLinkID.isNone) (a.slots snap)
    ⟨a.newSlot, hmem, rfl⟩
  rw [newSlotPosition, hfold, Option.getD_some, hj]
  -- every other slot names a link
  rcases mem_allSlots.1 (mem_sortRebuildSlots.1 (mem_of_getElem? hj)) with
    ⟨sn, -, m, -, rfl⟩ | rfl
  · cases hx
  · rfl

/-! ## The store after an attach -/

/-- What attaching `spec` to the dispatcher at `key` did to the store, for the new link `id`. -/
structure Attached (e : Env) (spec : AttachSpec) (key : Key) (snap : Option DispatcherSnapshot)
    (a : RebuildArgs) (cfg : Config) (rt : DispatcherRuntime) (id : LinkID) (s s' : Store) :
    Prop where
  snapshot : (∃ sn, snap = some sn ∧ s.getDispatcherSnapshot e.rowOrder key = .ok sn) ∨
    (snap = none ∧ ∀ row ∈ s.dispatchers, row.key ≠ key)
  priority : a.priority = spec.spec.priority
  mask : proceedOnMask key.type spec.proceedOn = .ok a.proceedOn
  written : ∃ completed, s.replaceDispatcherSnapshot e.now
      (((spec.kind e).plan e key snap (a.slots snap) cfg).spec e rt) = .ok (s', completed) ∧
    ∃ m, completed.members[newSlotPosition (a.slots snap)]? = some m ∧ id = m.linkID

/-- The link an attach reports: what it records of it, without the namespace and the time. -/
structure Reported (e : Env) (key : Key) (snap : Option DispatcherSnapshot) (a : RebuildArgs)
    (rt : DispatcherRuntime) (link : LinkRecord) : Prop where
  ifindex : a.ifindex = key.ifindex
  record : ∃ codes, proceedOnActions key.type a.proceedOn = .ok codes ∧
    link = newExtRecord a key (attachRevision snap) codes (newSlotPosition (a.slots snap))
      (attachedAt e key (attachRevision snap) (newSlotPosition (a.slots snap)))
      (Store.completedMember link.id (memberSpec e key (attachRevision snap)
        (newSlotPosition (a.slots snap)) a.newSlot)) rt

/-- The swap of an attach leaves the store alone, and records the namespace of the spec. -/
theorem swap_attach_eq_ok {snap : Option DispatcherSnapshot} {r : Nat} {dispID : ProgramID}
    {rt : DispatcherRuntime} (h : ((spec.kind e).swap key snap r).swap dispID w = .ok rt w') :
    w'.store = w.store ∧ rt.netnsPath = spec.spec.netns := by
  cases spec with
  | xdp sp =>
    cases snap with
    | none =>
      obtain ⟨disp, -, -, rfl, rfl⟩ := xdpCreateSwap_eq_ok h
      exact ⟨rfl, rfl⟩
    | some sn =>
      obtain ⟨disp, i, k, prev, -, -, rfl, rfl⟩ := xdpUpdateSwap_eq_ok h
      exact ⟨rfl, rfl⟩
  | tc d sp =>
    dsimp only [AttachSpec.kind, tcAttach] at h
    obtain ⟨disp, -, -, -, -, rfl, hdrop⟩ := tcSwap_eq_ok h
    have hsame := (adapts_dropOldFilter (e := e) _).store.ok hdrop
    exact ⟨hsame, rfl⟩

theorem completed_newSlot {snap : Option DispatcherSnapshot} {a : RebuildArgs} {cfg : Config}
    {rt : DispatcherRuntime} {now : Nat} {completed : DispatcherSnapshot} {m : DispatcherMember}
    (hst : s.replaceDispatcherSnapshot now
      (((spec.kind e).plan e key snap (a.slots snap) cfg).spec e rt) = .ok (s', completed))
    (hm : completed.members[newSlotPosition (a.slots snap)]? = some m) :
    m = completedMember m.linkID (memberSpec e key (attachRevision snap)
      (newSlotPosition (a.slots snap)) a.newSlot) ∧ completed.runtime = rt := by
  obtain ⟨ns, hns, -, -, -, -, -, -, -, -, rfl⟩ := replace_spec hst
  rw [getElem?_map] at hm
  obtain ⟨n, hn, rfl⟩ := Option.map_eq_some_iff.1 hm
  have hat := congrArg (·[newSlotPosition (a.slots snap)]?) hns
  simp only [getElem?_map, hn, Option.map_some, RebuildPlan.spec] at hat
  rw [getElem?_dispatcherMembers] at hat
  have hspec : n.spec = memberSpec e key (attachRevision snap) (newSlotPosition (a.slots snap))
      a.newSlot := by
    simpa [AttachKind.plan, getElem?_newSlotPosition] using hat
  rw [hspec]
  exact ⟨rfl, rfl⟩

/-- **What a successful attach did to the store**, and what it reports. -/
theorem attached_reported (hs : w.store.Consistent) {link : LinkRecord}
    (h : attach e spec w = .ok link w') :
    ∃ key snap a cfg rt, Attached e spec key snap a cfg rt link.id w.store w'.store ∧
      Reported e key snap a rt link ∧ rt.netnsPath = spec.spec.netns := by
  obtain ⟨prog, ifindex, mask, res, -, -, -, hm, hr, rfl⟩ := attach_eq_ok h
  obtain ⟨nsid, snap, cfg, completed, w1, -, hkey, hsnap, -, -, hreb, hdrop, codes, m, hcodes,
    hmem, hlink⟩ := rebuildForAttach_eq_ok hr
  obtain ⟨-, hsn⟩ := existingSnapshot_eq_ok hsnap
  obtain ⟨ps, rt, w2, s', -, -, -, hswap, hst, rfl⟩ := rebuildDispatcher_eq_ok hreb
  obtain ⟨hsame, hnetns⟩ := swap_attach_eq_ok hswap
  rw [show w2.store = w.store from hsame] at hst
  have hs' : w'.store = s' := by
    cases snap with
    | none =>
      cases hdrop
      rfl
    | some sn => rcases dropRevision_eq_ok hdrop with rfl | rfl <;> rfl
  have hid : res.link.id = m.linkID := by rw [hlink]; rfl
  obtain ⟨hmember, hrt⟩ := completed_newSlot hst hmem
  refine ⟨res.key, snap, _, cfg, rt,
    ⟨hsn.imp_right ?_, rfl, ?_, completed, hs' ▸ hst, m, hmem, hid⟩,
    ⟨by rw [hkey], codes, ?_, ?_⟩, hnetns⟩
  · rintro ⟨rfl, er, her⟩
    refine ⟨rfl, fun row hrow hrk => ?_⟩
    obtain ⟨sn, hget⟩ := getDispatcherSnapshot_isOk hs e.rowOrder ⟨row, hrow, hrk⟩
    cases hget.symm.trans her
  · rw [hkey, spec.kind_type]
    exact hm
  · rw [hkey]
    exact hcodes
  · rw [hid, ← hmember, ← hrt]
    exact hlink

theorem attached_of_ok (hs : w.store.Consistent) {link : LinkRecord}
    (h : attach e spec w = .ok link w') :
    ∃ key snap a cfg rt, Attached e spec key snap a cfg rt link.id w.store w'.store := by
  obtain ⟨key, snap, a, cfg, rt, ha, -⟩ := attached_reported hs h
  exact ⟨key, snap, a, cfg, rt, ha⟩

namespace Attached

variable {snap : Option DispatcherSnapshot} {a : RebuildArgs} {cfg : Config}
  {rt : DispatcherRuntime}

variable (h : Attached e spec key snap a cfg rt id s s')
include h

theorem recorded : Recorded e ((spec.kind e).plan e key snap (a.slots snap) cfg) rt s s' := by
  obtain ⟨completed, hst, -⟩ := h.written
  exact ⟨completed, hst⟩

theorem consistent (hs : s.Consistent) : s'.Consistent := by
  refine h.recorded.consistent hs (MasksFit.sort fun slot hslot b hb => ?_)
  rcases mem_allSlots.1 hslot with ⟨sn, hsn, m, hm, rfl⟩ | rfl
  · rcases h.snapshot with ⟨sn', hsn', hget⟩ | ⟨hnone, -⟩
    · obtain rfl := Option.some.inj (hsn.symm.trans hsn')
      obtain ⟨row, -, hdec⟩ := exists_row_of_member hget hm
      exact proceedOnMask_bit_lt hdec.mask hb
    · cases hsn.symm.trans hnone
  · exact proceedOnMask_bit_lt h.mask hb

/-- **The link an attach reports** is the member written for the new slot. -/
theorem written_newSlot (hs : s.Consistent) :
    ∃ m ∈ s'.memberRows key, m.link.id = id ∧
      Written e ((spec.kind e).plan e key snap (a.slots snap) cfg) rt
        (newSlotPosition (a.slots snap)) a.newSlot m := by
  have hs' := h.consistent hs
  obtain ⟨m, hm, hw⟩ := h.recorded.exists_written hs' (i := newSlotPosition (a.slots snap))
    (getElem?_newSlotPosition a snap)
  have hrow := ((mem_memberRows hs').1 hm).1
  refine ⟨m, hm, ?_, hw⟩
  obtain ⟨completed, hst, m0, hm0, rfl⟩ := h.written
  obtain ⟨hmember, -⟩ := completed_newSlot hst hm0
  obtain ⟨ns, -, -, -, hd, -, -, -, -, -, rfl⟩ := replace_spec hst
  rw [getElem?_map] at hm0
  obtain ⟨n, hn, rfl⟩ := Option.map_eq_some_iff.1 hm0
  -- the two rows stand in one slot
  have hpos : n.spec.position = newSlotPosition (a.slots snap) :=
    congrArg DispatcherMember.position hmember
  have hmem : n.detail key rt ∈ s'.details := by
    rw [hd]
    exact mem_append_right _ (mem_map_of_mem (mem_of_getElem? hn))
  have heq : m.detail = n.detail key rt := by
    refine hs'.position_inj _ hrow.detail _ hmem (by rw [hw.detail]; rfl) ?_
    rw [hw.detail]
    exact hpos.symm
  rw [hrow.link_id, heq]
  rfl

theorem newLink (hs : s.Consistent) :
    ∃ m ∈ s'.memberRows key, m.link.id = id ∧ m.detail.priority = spec.spec.priority := by
  obtain ⟨m, hm, hid, hw⟩ := h.written_newSlot hs
  refine ⟨m, hm, hid, ?_⟩
  rw [hw.detail, ← h.priority]
  rfl

end Attached

end Bpfman
