import Bpfman.Survivors

/-!
# A detach in the store

What `rebuildDispatcherForDetach` does to the tables, from any consistent store: nothing is assumed
of the pins and filters, so the results also hold between the steps of an operation.

* `detached_of_ok` — it removed the dispatcher, or wrote the snapshot of the other members;
* `Detached.carried`, `Detached.gone` — what becomes of the other members of the attach point;
* `rebuildDispatcherForDetach_isOk` — when no primitive fails, a dispatcher row is all it needs.
-/

namespace Bpfman

open Fallible Proc List Store

variable {e : Env} {w w' : World} {key k : Key} {id : LinkID} {s s' : Store}

variable {snap : DispatcherSnapshot} {rt : DispatcherRuntime} {cfg : Config} {y : MemberRow}

theorem adapts_detachPin (record : LinkRecord) : Adapts (detachPin e record) := by
  unfold detachPin
  cases record.pinPath with
  | none => exact .pure ()
  | some pin => exact adapts_detachLink pin

/-! ## The two outcomes -/

/-- What detaching `id` from the dispatcher at `key` did to the store. -/
inductive Detached (e : Env) (key : Key) (id : LinkID) (s s' : Store) : Prop
  | removed (snap : DispatcherSnapshot) (hget : s.getDispatcherSnapshot e.rowOrder key = .ok snap)
      (hrem : removesDispatcher e (snap.without id) = true)
      (hdel : s.deleteDispatcherSnapshot key = .ok s')
  | rebuilt (snap : DispatcherSnapshot) (cfg : Config) (rt : DispatcherRuntime)
      (hget : s.getDispatcherSnapshot e.rowOrder key = .ok snap)
      (hrem : removesDispatcher e (snap.without id) = false)
      (hnetns : rt.netnsPath = snap.runtime.netnsPath)
      (hrec : Recorded e (detachRebuild e key snap id cfg) rt s s')

theorem swap_detach_eq_ok {r : Nat} {dispID : ProgramID}
    (h : ((detachKind e key).swap snap r).swap dispID w = .ok rt w') :
    w'.store = w.store ∧ rt.netnsPath = snap.runtime.netnsPath := by
  unfold detachKind at h
  split at h
  · obtain ⟨disp, i, k, prev, -, -, rfl, rfl⟩ := xdpUpdateSwap_eq_ok h
    exact ⟨rfl, rfl⟩
  · dsimp only [tcDetach] at h
    obtain ⟨disp, -, -, -, -, rfl, hdrop⟩ := tcSwap_eq_ok h
    have hsame := (adapts_dropOldFilter (e := e) _).store.ok hdrop
    exact ⟨hsame, rfl⟩

/-- **What a successful rebuild for a detach did to the store.** -/
theorem detached_of_ok (h : rebuildDispatcherForDetach e key id w = .ok () w') :
    Detached e key id w.store w'.store := by
  obtain ⟨snap, hget, ⟨hrem, hdel, -⟩ | ⟨hrem, hrest⟩⟩ := rebuildDispatcherForDetach_cases h
  · exact .removed snap hget hrem hdel
  · obtain ⟨cfg, completed, w2, -, hreb, hdrop⟩ := rebuildForDetach_eq_ok hrest
    obtain ⟨ps, rt, w3, s', -, -, -, hswap, hst, rfl⟩ := rebuildDispatcher_eq_ok hreb
    obtain ⟨hsame, hnetns⟩ := swap_detach_eq_ok hswap
    have hs' : w'.store = s' := by
      rcases dropRevision_eq_ok hdrop with rfl | rfl <;> rfl
    rw [hsame] at hst
    exact .rebuilt snap cfg rt hget hrem hnetns (hs' ▸ ⟨completed, hst⟩)

/-! ## Frame -/

/-- The masks of the members a snapshot was read with fit in 32 bits. -/
theorem masksFit_detachRebuild (hget : s.getDispatcherSnapshot e.rowOrder key = .ok snap) :
    MasksFit (detachRebuild e key snap id cfg).slots := by
  refine MasksFit.sort fun slot hslot b hb => ?_
  obtain ⟨m, hm, rfl⟩ := mem_map.1 hslot
  obtain ⟨row, -, hdec⟩ := exists_row_of_member hget (mem_filter.1 hm).1
  exact proceedOnMask_bit_lt hdec.mask hb

theorem key_detachRebuild (hget : s.getDispatcherSnapshot e.rowOrder key = .ok snap) :
    (detachRebuild e key snap id cfg).key = key := by
  obtain ⟨row, -, -, hsk, -⟩ := getDispatcherSnapshot_eq_ok hget
  exact hsk

/-- The rows of a rebuild for a detach: those away from the attach point, and a new row for each
other member. -/
theorem Recorded.rows (hget : s.getDispatcherSnapshot e.rowOrder key = .ok snap)
    (h : Recorded e (detachRebuild e key snap id cfg) rt s s') :
    ∃ ns : List NewMember,
      s'.links = s.links.filter (·.id ∉ s.attachPointLinks key) ++ ns.map (·.link e.now key) ∧
      s'.details = s.details.filter (·.id ∉ s.attachPointLinks key) ++ ns.map (·.detail key rt) ∧
      ∀ n ∈ ns, ∃ y ∈ s.memberRows key, y.link.id ≠ id ∧ n.id = y.link.id ∧
        n.spec.programID = y.link.programID := by
  obtain ⟨completed, hrep⟩ := h
  obtain ⟨ns, hns, hok, hlinks, hdetails, -⟩ := replace_spec hrep
  rw [RebuildPlan.spec, key_detachRebuild hget] at hlinks hdetails
  refine ⟨ns, hlinks, hdetails, fun n hn => ?_⟩
  -- the spec of a new row is that of a slot, and the slot that of a member
  have hspec : n.spec ∈ (RebuildPlan.spec e (detachRebuild e key snap id cfg) rt).members :=
    hns ▸ mem_map_of_mem hn
  obtain ⟨i, hi⟩ := mem_iff_getElem?.1 hspec
  rw [RebuildPlan.spec, getElem?_dispatcherMembers] at hi
  obtain ⟨slot, hslot, hsl⟩ := Option.map_eq_some_iff.1 hi
  obtain ⟨m, hm, rfl⟩ := mem_map.1 (mem_sortRebuildSlots.1 (mem_of_getElem? hslot))
  obtain ⟨hm, hne⟩ := mem_filter.1 hm
  obtain ⟨y, hy, hdec⟩ := exists_row_of_member hget hm
  have hid : n.id = m.linkID := (hok n hn).2 _ (by rw [← hsl]; rfl)
  refine ⟨y, hy, ?_, hid.trans hdec.linkID, ?_⟩
  · rw [← hdec.linkID]
    simpa using hne
  · rw [← hdec.programID]
    exact (congrArg DispatcherMemberSpec.programID hsl).symm

namespace Detached

variable (h : Detached e key id s s')
include h

theorem consistent (hs : s.Consistent) : s'.Consistent := by
  cases h with
  | removed snap hget hrem hdel => exact consistent_deleteSnapshot hs hdel
  | rebuilt snap cfg rt hget hrem hnetns hrec =>
    exact hrec.consistent hs (masksFit_detachRebuild hget)

theorem row : ∃ r ∈ s.dispatchers, r.key = key := by
  obtain ⟨snap, hget, -⟩ | ⟨snap, cfg, rt, hget, -⟩ := h
  all_goals
    obtain ⟨r, hr, hrk, -⟩ := getDispatcherSnapshot_eq_ok hget
    exact ⟨r, hr, hrk⟩

theorem sameAt (hs : s.Consistent) (hk : k ≠ key) : SameAt k s s' := by
  cases h with
  | removed snap hget hrem hdel => exact sameAt_deleteSnapshot hs hdel hk
  | rebuilt snap cfg rt hget hrem hnetns hrec =>
    obtain ⟨completed, hrep⟩ := hrec
    exact sameAt_replace hs hrep (by rwa [RebuildPlan.spec, key_detachRebuild hget])

theorem tables : s'.programs = s.programs ∧ s'.mapSets = s.mapSets := by
  cases h with
  | removed snap hget hrem hdel =>
    rw [Store.deleteDispatcherSnapshot_eq_ok hdel]
    exact ⟨rfl, rfl⟩
  | rebuilt snap cfg rt hget hrem hnetns hrec =>
    obtain ⟨completed, hrep⟩ := hrec
    obtain ⟨ns, -, -, -, -, -, hp, hm, -⟩ := replace_spec hrep
    exact ⟨hp, hm⟩

/-- Every link row after a detach was there before, away from the attach point, or is the new row
of another member. -/
theorem links {l : LinkRow} (hl : l ∈ s'.links) :
    (l ∈ s.links ∧ l.id ∉ s.attachPointLinks key) ∨
      ∃ y ∈ s.memberRows key, y.link.id ≠ id ∧ l.id = y.link.id ∧
        l.programID = y.link.programID ∧ (l.kind = .xdp ∨ l.kind = .tc) := by
  cases h with
  | removed snap hget hrem hdel =>
    rw [Store.deleteDispatcherSnapshot_eq_ok hdel] at hl
    exact .inl (mem_deleteLinks_links.1 hl)
  | rebuilt snap cfg rt hget hrem hnetns hrec =>
    obtain ⟨ns, hlinks, -, hns⟩ := hrec.rows hget
    rw [hlinks] at hl
    rcases mem_append.1 hl with hl | hl
    · exact .inl (by simpa using hl)
    · obtain ⟨n, hn, rfl⟩ := mem_map.1 hl
      obtain ⟨y, hy, hne, hid, hp⟩ := hns n hn
      exact .inr ⟨y, hy, hne, hid, hp, linkKind_dispatcher key.type⟩

theorem keeps_link {l : LinkRow} (hl : l ∈ s.links)
    (hk : l.id ∉ s.attachPointLinks key) : l ∈ s'.links := by
  cases h with
  | removed snap hget hrem hdel =>
    rw [Store.deleteDispatcherSnapshot_eq_ok hdel]
    exact mem_deleteLinks_links.2 ⟨hl, hk⟩
  | rebuilt snap cfg rt hget hrem hnetns hrec =>
    obtain ⟨ns, hlinks, -⟩ := hrec.rows hget
    rw [hlinks]
    exact mem_append_left _ (mem_filter.2 ⟨hl, by simpa using hk⟩)

theorem detail_of (hs : s.Consistent) {d : DetailRow}
    (hd : d ∈ s'.details) : ∃ d0 ∈ s.details, d0.id = d.id ∧ d0.key = d.key := by
  cases h with
  | removed snap hget hrem hdel =>
    rw [Store.deleteDispatcherSnapshot_eq_ok hdel] at hd
    exact ⟨d, (mem_deleteLinks_details.1 hd).1, rfl, rfl⟩
  | rebuilt snap cfg rt hget hrem hnetns hrec =>
    obtain ⟨ns, -, hdetails, hns⟩ := hrec.rows hget
    rw [hdetails] at hd
    rcases mem_append.1 hd with hd | hd
    · exact ⟨d, (mem_filter.1 hd).1, rfl, rfl⟩
    · obtain ⟨n, hn, rfl⟩ := mem_map.1 hd
      obtain ⟨y, hy, -, hid, -⟩ := hns n hn
      obtain ⟨hrow, hyk⟩ := (mem_memberRows hs).1 hy
      exact ⟨y.detail, hrow.detail, hrow.link_id.symm.trans hid.symm, hyk⟩

theorem dispatchers {r' : DispatcherRow} (hr' : r' ∈ s'.dispatchers) :
    ∃ r ∈ s.dispatchers, r.key = r'.key ∧ r.netns = r'.netns := by
  cases h with
  | removed snap hget hrem hdel =>
    rw [Store.deleteDispatcherSnapshot_eq_ok hdel] at hr'
    exact ⟨r', (mem_filter.1 hr').1, rfl, rfl⟩
  | rebuilt snap cfg rt hget hrem hnetns hrec =>
    obtain ⟨completed, hrep⟩ := hrec
    obtain ⟨ns, -, -, -, -, hdisp, -⟩ := replace_spec hrep
    rw [hdisp] at hr'
    rcases mem_append.1 hr' with hr' | hr'
    · exact ⟨r', (mem_filter.1 hr').1, rfl, rfl⟩
    · obtain ⟨r, hr, hrk, hsk, -, hrt, -⟩ := getDispatcherSnapshot_eq_ok hget
      rw [mem_singleton.1 hr']
      refine ⟨r, hr, hrk.trans hsk.symm, ?_⟩
      have : rt.netnsPath = r.netns := by rw [hnetns, hrt]; rfl
      exact this.symm

end Detached

/-! ## The other members -/

/-- The rows of a member after a detach of another one: its data is carried over, except that its
labels are dropped and its creation time is that of the detach. -/
structure Carried (e : Env) (y y' : MemberRow) : Prop where
  id : y'.link.id = y.link.id
  programID : y'.link.programID = y.link.programID
  kind : y'.link.kind = y.link.kind
  key : y'.detail.key = y.detail.key
  ifname : y'.detail.ifname = y.detail.ifname
  priority : y'.detail.priority = y.detail.priority
  proceedOn : y'.detail.proceedOn = y.detail.proceedOn
  netns : y'.detail.netns = y.detail.netns
  metadata : y'.link.metadata = []
  createdAt : y'.link.createdAt = e.now

theorem Carried.trans {y1 y2 : MemberRow} (h : Carried e y y1) (h' : Carried e y1 y2) :
    Carried e y y2 where
  id := h'.id.trans h.id
  programID := h'.programID.trans h.programID
  kind := h'.kind.trans h.kind
  key := h'.key.trans h.key
  ifname := h'.ifname.trans h.ifname
  priority := h'.priority.trans h.priority
  proceedOn := h'.proceedOn.trans h.proceedOn
  netns := h'.netns.trans h.netns
  metadata := h'.metadata
  createdAt := h'.createdAt

theorem Store.IsMemberRow.kind (hs : s.Consistent) (hy : s.IsMemberRow y) :
    y.link.kind = y.detail.key.type.linkKind := by
  obtain ⟨l, hl, hid, hk, -⟩ := hs.detailLink _ hy.detail
  rw [← hk, Table.eq_of_key hs.linkIDs hy.link hl (hy.link_id.trans hid.symm)]

/-- The namespace recorded for a member is that of its dispatcher. -/
theorem snapshot_netns (hs : s.Consistent) {ord : RowOrder}
    (hget : s.getDispatcherSnapshot ord key = .ok snap)
    (hy : y ∈ s.memberRows key) : snap.runtime.netnsPath = y.detail.netns := by
  obtain ⟨hrow, hk⟩ := (mem_memberRows hs).1 hy
  obtain ⟨r, hr, hrk, -, -, hrt, -⟩ := getDispatcherSnapshot_eq_ok hget
  obtain ⟨r', hr', hrk', -, hns⟩ := hs.detailDispatcher _ hrow.detail
  obtain rfl := Table.eq_of_key hs.dispatcherKeys hr hr' (hrk.trans (hrk'.trans hk).symm)
  rw [hrt, ← hns]
  rfl

/-- The slot of a survivor decodes to the codes it was read with. -/
theorem Written.proceedOn_eq (hs : s.Consistent) {p : RebuildPlan} {i : Nat}
    {slot : RebuildSlot} {y' : MemberRow} (hw : Written e p rt i slot y') (hsv : Survivor y slot)
    (hy : s.IsMemberRow y) (hk : y.detail.key = p.key) :
    y'.detail.proceedOn = y.detail.proceedOn := by
  obtain ⟨m, hact, hb⟩ := hs.codes _ hy.detail
  have hm : m = slot.proceedOn :=
    Except.ok.inj ((proceedOnMask_actions hb hact).symm.trans hsv.mask)
  have hcodes := hw.codes
  rw [← hm, ← hk, hact] at hcodes
  exact (Except.ok.inj hcodes).symm

namespace Detached

/-- **Another member of the attach point stays**, with its data carried over, unless the namespace
of the dispatcher is gone. -/
theorem carried (h : Detached e key id s s') (hs : s.Consistent)
    (hy : y ∈ s.memberRows key) (hne : y.link.id ≠ id)
    (hns : netnsGone e y.detail.netns = false) : ∃ y' ∈ s'.memberRows key, Carried e y y' := by
  have hs' := h.consistent hs
  obtain ⟨hrow, hyk⟩ := (mem_memberRows hs).1 hy
  cases h with
  | removed snap hget hrem hdel =>
    rw [removesDispatcher_eq_false hget hy hne (by rwa [snapshot_netns hs hget hy])] at hrem
    cases hrem
  | rebuilt snap cfg rt hget hrem hnetns hrec =>
    have hpk : (detachRebuild e key snap id cfg).key = key := key_detachRebuild hget
    obtain ⟨m, hm, hdec⟩ := exists_member_of_row hget hy
    obtain ⟨hsv, hmeta⟩ := survivor_detachSlot hdec
    have hmem : detachSlot m ∈ (detachRebuild e key snap id cfg).slots := by
      refine mem_sortRebuildSlots.2 (mem_map_of_mem (mem_filter.2 ⟨hm, ?_⟩))
      rw [hdec.linkID]
      simpa using hne
    obtain ⟨i, hi⟩ := mem_iff_getElem?.1 hmem
    obtain ⟨y', hy', hw⟩ := hrec.exists_written hs' hi
    have hrow' := ((mem_memberRows hs').1 hy').1
    refine ⟨y', hpk ▸ hy', ?_⟩
    have hkey : y'.detail.key = y.detail.key := by
      rw [hw.detail, hyk, ← hpk]
      rfl
    refine ⟨?_, ?_, ?_, hkey, ?_, ?_, hw.proceedOn_eq hs hsv hrow (hyk.trans hpk.symm), ?_, ?_, ?_⟩
    · rw [hrow'.link_id]
      exact hw.id _ hsv.existing
    · rw [hw.link]
      exact hsv.programID
    · rw [hrow'.kind hs', hrow.kind hs, hkey]
    · rw [hw.detail]
      exact hsv.ifname
    · rw [hw.detail]
      exact hsv.priority
    · rw [hw.detail, ← snapshot_netns hs hget hy, ← hnetns]
      rfl
    · rw [hw.link]
      exact hmeta
    · rw [hw.link]
      rfl

theorem gone (h : Detached e key id s s') (hs : s.Consistent)
    (hy : y ∈ s.memberRows key) (hns : netnsGone e y.detail.netns = true) :
    ∀ r ∈ s'.dispatchers, r.key ≠ key := by
  cases h with
  | removed snap hget hrem hdel =>
    intro r hr
    rw [Store.deleteDispatcherSnapshot_eq_ok hdel] at hr
    exact of_decide_eq_true (mem_filter.1 hr).2
  | rebuilt snap cfg rt hget hrem hnetns hrec =>
    rw [← snapshot_netns hs hget hy] at hns
    have hns' : netnsGone e (snap.without id).runtime.netnsPath = true := hns
    simp [removesDispatcher, hns'] at hrem

end Detached

/-! ## Success -/

theorem config_detach_isOk {slots : List RebuildSlot} (hpos : slots.length ≠ 0)
    (hlen : slots.length ≤ maxPrograms) : ∃ cfg, (detachKind e key).config slots = .ok cfg := by
  have hn : ¬ ((decide (slots.length < 1) || decide (slots.length > maxPrograms)) = true) := by
    simp only [Bool.or_eq_true, decide_eq_true_eq]
    omega
  unfold detachKind
  split
  · exact ⟨_, by simp only [xdpDetach, xdpConfig, newXDPConfig, if_neg hn]; rfl⟩
  · exact ⟨_, by simp only [tcDetach, tcConfig, newTCConfig, if_neg hn]; rfl⟩

/-- A dispatcher that is rebuilt for a detach has slots left, and not too many. -/
theorem length_slots_without (hs : s.Consistent)
    (hget : s.getDispatcherSnapshot e.rowOrder key = .ok snap)
    (hrem : removesDispatcher e (snap.without id) = false) :
    (snap.without id).slots.length ≠ 0 ∧ (snap.without id).slots.length ≤ maxPrograms := by
  obtain ⟨r, -, -, -, -, -, hall⟩ := getDispatcherSnapshot_eq_ok hget
  have hle : snap.members.length ≤ 10 := by
    rw [← hall.length_eq, (e.rowOrder.perm _).length_eq]
    exact length_memberRows_le hs
  have hsub : (snap.without id).members.length ≤ snap.members.length := length_filter_le _ _
  have hlen : (snap.without id).slots.length = (snap.without id).members.length := by
    unfold DispatcherSnapshot.slots
    rw [(sortRebuildSlots_perm _).length_eq, length_map]
  simp only [removesDispatcher, Bool.or_eq_false_iff, decide_eq_false_iff_not] at hrem
  rw [hlen]
  exact ⟨hrem.1, hsub.trans hle⟩

theorem journaled_rebuildForDetach {slots : List RebuildSlot} {r : Nat}
    (hcfg : (detachKind e key).config slots = .ok cfg) :
    Journaled (rebuildForDetach e (detachKind e key) snap slots r) := by
  refine .bind (.mapErr ?_) fun c =>
    (journaled_rebuildDispatcher (local_detachPlan key snap slots r c)).bind fun _ =>
      journaled_dropRevision _ _
  rw [hcfg]
  exact .pure cfg

/-- **With no failing primitive** a rebuild for a detach succeeds on every attach point that has a
dispatcher row. -/
theorem rebuildDispatcherForDetach_isOk (hs : w.store.Consistent)
    (hrow : ∃ r ∈ w.store.dispatchers, r.key = key)
    (hq : Quiet (rebuildDispatcherForDetach e key id) w) :
    ∃ w', rebuildDispatcherForDetach e key id w = .ok () w' := by
  obtain ⟨snap, hget⟩ := getDispatcherSnapshot_isOk hs e.rowOrder hrow
  rw [rebuildDispatcherForDetach_eq] at hq ⊢
  obtain ⟨a, ha, hread, hq'⟩ := query_bind_of_quiet hq logs_detachFrom fun err herr => nomatch
    herr.symm.trans hget
  obtain rfl := Except.ok.inj (hget.symm.trans ha)
  have hok : Journaled (detachFrom e key id snap) := by
    unfold detachFrom
    split
    · exact journaled_removeEmptyDispatcher
    · rename_i hrem
      obtain ⟨h1, h2⟩ := length_slots_without hs hget (by simpa using hrem)
      obtain ⟨cfg, hcfg⟩ := @config_detach_isOk e key _ h1 h2
      exact journaled_rebuildForDetach hcfg
  obtain ⟨_, w', hw', -⟩ := hok.isOk hq'
  exact ⟨w', hread.trans hw'⟩

end Bpfman
