import Bpfman.Attached
import Bpfman.RecordFrame
import Bpfman.StoreFrame
import Bpfman.TCXRun

/-!
# The priority of an attached link

A priority is an `int` in a spec and in a member row, a 64-bit integer in the store and an `int32`
in the details of a link. A dispatcher-backed link is stored with the priority of its spec, which a
read then scans into an `int32`; a TCX link is converted to an `int32` before it is stored.

Both come to the same: the priority of a link is read back exactly if it is an `int32`
(`reports_priority_iff`). A listing scans the rows of all links, so one that does not scan fails
every listing, those of other links too; otherwise the batch readers and `GetLink` agree
(`lists_iff`).
-/

namespace Bpfman

open Fallible Proc Store List

variable {e : Env} {w w' : World} {s s' : Store} {key : Key} {id : LinkID} {l : LinkRow}

/-! ## Reading a priority -/

/-- The priority in the details of a link. -/
def LinkRecord.priority (r : LinkRecord) : Option Int :=
  match r.details with
  | some (.xdp d) => some d.priority
  | some (.tc _ d) => some d.priority
  | some (.tcx d) => some d.priority
  | _ => none

/-- The link can be read and listed, and has the priority in both. -/
def Reports (s : Store) (id : LinkID) (priority : Int) : Prop :=
  (∃ r, s.getLink id = .ok r ∧ r.priority = some priority) ∧
    ∃ rs, s.listLinks = .ok rs ∧ (∃ r ∈ rs, r.id = id) ∧ ∀ r ∈ rs, r.id = id →
      r.priority = some priority

/-- A link is read and listed with one record, if every priority of the store scans. -/
theorem reports_iff (hs : s.Consistent) (hl : l ∈ s.links) {priority : Int} :
    Reports s l.id priority ↔ s.detailsScan = true ∧ (s.listRecord l).priority = some priority := by
  have hne : s.links.isEmpty = false := by
    rw [isEmpty_eq_false_iff]
    exact ne_nil_of_mem hl
  have hlist : s.listLinks = if s.detailsScan then .ok (s.links.map s.listRecord)
      else .error (.msg "scan details") := by
    rw [Store.listLinks, Store.populateLinkDetails, hne]
    rfl
  by_cases hscan : s.detailsScan = true
  · rw [if_pos hscan] at hlist
    have hget := getLink_listRecord hs hscan hl
    constructor
    · rintro ⟨⟨r, hr, hp⟩, -⟩
      cases hget.symm.trans hr
      exact ⟨hscan, hp⟩
    · rintro ⟨-, hp⟩
      refine ⟨⟨_, hget, hp⟩, _, hlist, ⟨_, mem_map_of_mem hl, rfl⟩, fun r hr hid => ?_⟩
      obtain ⟨l', hl', rfl⟩ := mem_map.1 hr
      rw [Table.eq_of_key hs.linkIDs hl' hl hid]
      exact hp
  · rw [if_neg hscan] at hlist
    refine ⟨?_, fun h => absurd h.1 hscan⟩
    rintro ⟨-, rs, hrs, -⟩
    cases hlist.symm.trans hrs

theorem detailsScan_iff (hs : s.Consistent) : s.detailsScan = true ↔
    (∀ d ∈ s.details, d.priority < 2 ^ 31) ∧
      ∀ l ∈ s.links, ∀ r, l.standalone = some (.tcx r) → int32Scans r.priority = true := by
  unfold detailsScan
  rw [Bool.and_eq_true, all_eq_true, all_eq_true]
  refine and_congr (forall₂_congr fun d hd => ?_) ?_
  · obtain ⟨r, hr, -, hid, -⟩ := hs.detailDispatcher d hd
    have hjoin : s.joinDispatcher d = some (linkDetails d r) := by
      rw [joinDispatcher, Table.find_of_mem hs.dispatcherIDs hr hid]
      rfl
    simp [hjoin, priorityScans]
  · constructor
    · intro h l hl r hr
      exact h (l.id, r) (mem_tcxRows.2 ⟨l, hl, rfl, hr⟩)
    · rintro h ⟨i, r⟩ hmem
      obtain ⟨l, hl, -, hr⟩ := mem_tcxRows.1 hmem
      exact h l hl r hr

/-! ## Listings -/

/-- A listing of `rows` succeeds, has each of them once, and gives it the record of `GetLink`. -/
def Lists (s : Store) (rows : List LinkRow) (out : Except Err (List LinkRecord)) : Prop :=
  ∃ records, out = .ok records ∧ (records.map (·.id)).Perm (rows.map (·.id)) ∧
    (records.map (·.id)).Nodup ∧ ∀ r ∈ records, s.getLink r.id = .ok r

/-- A sublist of the link rows is listed with the records of `GetLink` when every priority scans. -/
theorem lists_of_scan (hs : s.Consistent) (hscan : s.detailsScan = true) {rows : List LinkRow}
    (hsub : rows.Sublist s.links) : Lists s rows (s.populateLinkDetails rows) := by
  have hids : (rows.map s.listRecord).map (·.id) = rows.map (·.id) := by
    rw [map_map]
    rfl
  refine ⟨rows.map s.listRecord, populateLinkDetails_eq_ok.2 ⟨rfl, .inr hscan⟩, ?_, ?_, ?_⟩
  · rw [hids]
  · rw [hids]
    exact hs.linkIDs.sublist (hsub.map _)
  · intro r hr
    obtain ⟨l, hl, rfl⟩ := mem_map.1 hr
    exact getLink_listRecord hs hscan (hsub.subset hl)

/-- **The batch readers agree with `GetLink`** on every link exactly if every recorded priority
scans. -/
theorem lists_iff (hs : s.Consistent) :
    (Lists s s.links s.listLinks ∧
      ∀ p, Lists s (s.links.filter (·.programID = p)) (s.listLinksByProgram p)) ↔
    s.detailsScan = true := by
  constructor
  · rintro ⟨⟨records, hlist, -⟩, -⟩
    rcases (populateLinkDetails_eq_ok.1 hlist).2 with hnil | hscan
    · -- without links there is no detail row to scan
      refine (detailsScan_iff hs).2 ⟨fun d hd => ?_, fun l hl => ?_⟩
      · obtain ⟨l, hl, -⟩ := hs.detailLink d hd
        simp [hnil] at hl
      · simp [hnil] at hl
    · exact hscan
  · intro hscan
    exact ⟨lists_of_scan hs hscan (List.Sublist.refl _),
      fun p => lists_of_scan hs hscan filter_sublist⟩

open Sample

/-- Two XDP programs at priority 50. -/
theorem lists_iff_sample :
    let s := (attached [xdp 1 [], xdp 2 []]).store
    s.links.map (·.id) = [2, 1] ∧ Lists s s.links s.listLinks ∧
      ∀ p, Lists s (s.links.filter (·.programID = p)) (s.listLinksByProgram p) := by
  have hrun : Run world (attached [xdp 1 [], xdp 2 []]) := run_attachAll (by decide +kernel)
  exact ⟨by decide +kernel, (lists_iff (inv_run fresh.inv hrun).store).2 (by decide +kernel)⟩

/-- A program at priority `2 ^ 31` and one at priority 50: the link of the second is read, and no
listing that should have it succeeds. -/
theorem listing_fails_for_readable_link :
    let specs := [.xdp ⟨1, "eth0", "", 2 ^ 31, [], []⟩, xdp 2 []]
    let s := (attached specs).store
    Run world (attached specs) ∧ (s.getLink 2).isOk = true ∧
      s.listLinks.isOk = false ∧ (s.listLinksByProgram 2).isOk = false :=
  ⟨run_attachAll (by decide +kernel), by decide +kernel⟩

/-! ## Dispatcher-backed links -/

theorem priority_listRecord_member (hs : s.Consistent) {m : MemberRow} (hm : s.IsMemberRow m) :
    (s.listRecord m.link).priority = some (m.detail.priority : Int) := by
  obtain ⟨d, hd, -, hid, -⟩ := hs.detailDispatcher _ hm.detail
  rw [listRecord, (listDetails_member hs hm hd hid).2]
  unfold linkRecord linkDetails LinkRecord.priority
  cases m.detail.key.type <;> rfl

namespace Attached

variable {spec : AttachSpec} {snap : Option DispatcherSnapshot} {a : RebuildArgs} {cfg : Config}
  {rt : DispatcherRuntime}

variable (h : Attached e spec key snap a cfg rt id s s') (hs : s.Consistent)
include h hs

theorem slot_of_member {m : MemberRow} (hm : m ∈ s.memberRows key) :
    ∃ slot ∈ a.slots snap, slot.priority = m.detail.priority := by
  obtain ⟨hrow, hk⟩ := (mem_memberRows hs).1 hm
  rcases h.snapshot with ⟨sn, rfl, hget⟩ | ⟨-, hno⟩
  · obtain ⟨x, hx, hdec⟩ := exists_member_of_row hget hm
    exact ⟨attachSlot x, mem_sortRebuildSlots.2 (mem_allSlots.2 (.inl ⟨sn, rfl, x, hx, rfl⟩)),
      hdec.priority⟩
  · obtain ⟨r, hr, hrk, -⟩ := hs.detailDispatcher _ hrow.detail
    exact absurd (hrk.trans hk) (hno r hr)

theorem slot_priority {slot : RebuildSlot} (hslot : slot ∈ a.slots snap) :
    (∃ d ∈ s.details, slot.priority = d.priority) ∨ slot.priority = spec.spec.priority := by
  rcases mem_allSlots.1 (mem_sortRebuildSlots.1 hslot) with ⟨sn, hsn, x, hx, rfl⟩ | rfl
  · rcases h.snapshot with ⟨sn', hsn', hget⟩ | ⟨hnone, -⟩
    · obtain rfl := Option.some.inj (hsn.symm.trans hsn')
      obtain ⟨m, hm, hdec⟩ := exists_row_of_member hget hx
      exact .inl ⟨m.detail, ((mem_memberRows hs).1 hm).1.detail, hdec.priority⟩
    · cases hsn.symm.trans hnone
  · exact .inr h.priority

theorem sameAt {k : Key} (hk : k ≠ key) : SameAt k s s' := by
  obtain ⟨completed, hrep, -⟩ := h.written
  exact sameAt_replace hs hrep hk

/-- The priorities of the member rows after an attach are those before it and the new one. -/
theorem priorities_iff {P : Nat → Prop} : (∀ d ∈ s'.details, P d.priority) ↔
      P spec.spec.priority ∧ ∀ d ∈ s.details, P d.priority := by
  have hs' := h.consistent hs
  have hother : ∀ {d : DetailRow}, d.key ≠ key → (d ∈ s'.details ↔ d ∈ s.details) := by
    intro d hk
    have hmem := congrArg (d ∈ ·) (h.sameAt hs hk).details
    simpa using hmem
  constructor
  · intro hall
    refine ⟨?_, fun d hd => ?_⟩
    · obtain ⟨m, hm, -, hp⟩ := h.newLink hs
      exact hp ▸ hall _ ((mem_memberRows hs').1 hm).1.detail
    · by_cases hk : d.key = key
      · obtain ⟨m, hm, rfl⟩ := exists_memberRow hs hd
        obtain ⟨slot, hslot, hp⟩ := h.slot_of_member hs ((mem_memberRows hs).2 ⟨hm, hk⟩)
        obtain ⟨i, hi⟩ := mem_iff_getElem?.1 hslot
        obtain ⟨m', hm', hw⟩ := h.recorded.exists_written hs' hi
        have hp' : m'.detail.priority = slot.priority := by rw [hw.detail]; rfl
        rw [← hp, ← hp']
        exact hall _ ((mem_memberRows hs').1 hm').1.detail
      · exact hall d ((hother hk).2 hd)
  · rintro ⟨hnew, hall⟩ d hd
    by_cases hk : d.key = key
    · obtain ⟨m, hm, rfl⟩ := exists_memberRow hs' hd
      obtain ⟨i, slot, hw⟩ := h.recorded.written hs' ((mem_memberRows hs').2 ⟨hm, hk⟩)
      have hp : m.detail.priority = slot.priority := by rw [hw.detail]; rfl
      rw [hp]
      rcases h.slot_priority hs (mem_of_getElem? hw.at_slot) with ⟨d, hd, heq⟩ | heq
      · exact heq ▸ hall d hd
      · exact heq ▸ hnew
    · exact hall d ((hother hk).1 hd)

/-- An attach to a dispatcher leaves the other links alone. -/
theorem standalone_iff
    {row : StandaloneRow} (hrow : l.standalone = some row) : l ∈ s'.links ↔ l ∈ s.links := by
  obtain ⟨completed, hrep, -⟩ := h.written
  obtain ⟨ns, -, -, hlinks, -⟩ := replace_spec hrep
  rw [hlinks, mem_append, mem_filter]
  constructor
  · rintro (⟨hl, -⟩ | hl)
    · exact hl
    · obtain ⟨n, -, rfl⟩ := mem_map.1 hl
      cases hrow
  · intro hl
    refine .inl ⟨hl, decide_eq_true fun hmem => ?_⟩
    -- a link with a member row has no detail row of its own
    obtain ⟨d, hd, -, hid⟩ := mem_attachPointLinks.1 hmem
    obtain ⟨l', hl', hid', hkind, -⟩ := hs.detailLink d hd
    obtain rfl := Table.eq_of_key hs.linkIDs hl' hl (hid'.trans hid)
    rw [(hs.detailed l' hl').none (hkind ▸ linkKind_dispatcher _)] at hrow
    cases hrow

theorem detailsScan_iff :
    s'.detailsScan = true ↔ spec.spec.priority < 2 ^ 31 ∧ s.detailsScan = true := by
  rw [Bpfman.detailsScan_iff hs, Bpfman.detailsScan_iff (h.consistent hs),
    h.priorities_iff hs (P := (· < 2 ^ 31)), and_assoc]
  refine and_congr_right fun _ => and_congr_right fun _ => ?_
  constructor
  · exact fun hall l hl r hr => hall l ((h.standalone_iff hs hr).2 hl) r hr
  · exact fun hall l hl r hr => hall l ((h.standalone_iff hs hr).1 hl) r hr

end Attached

/-! ## TCX links -/

/-- The hook a TCX spec names. -/
def TCXAttachSpec.hook? (e : Env) (spec : TCXAttachSpec) : Option TCXHook := do
  let nsid ← e.nsid spec.netns
  let ifindex ← e.ifindex spec.ifname spec.netns
  some ⟨spec.direction, nsid, ifindex⟩

/-- **What a successful TCX attach did to the store**, and what it reports: the link has the
priority of the spec as an `int32`. -/
theorem attachTCX_store {spec : TCXAttachSpec} {link : LinkRecord}
    (h : attachTCX e spec w = .ok link w') :
    ∃ hook pin k, spec.hook? e = some hook ∧ w.store.Creates e.now (spec.linkSpec hook pin k) ∧
      link = tcxRecord (newLinkRow e.now w.store (spec.linkSpec hook pin k)) (spec.row hook) ∧
      w'.store = w.store.addLink (newLinkRow e.now w.store (spec.linkSpec hook pin k)) := by
  obtain ⟨ifindex, w1, h1, g1⟩ := bind_eq_ok.1 h
  obtain ⟨hif, rfl⟩ := lookup_eq_ok h1
  obtain ⟨prog, w2, h2, g2⟩ := bind_eq_ok.1 g1
  obtain ⟨-, rfl⟩ := getProgram_eq_ok h2
  obtain ⟨nsid, w3, h3, g3⟩ := bind_eq_ok.1 g2
  obtain ⟨hns, rfl⟩ := lookup_eq_ok (mapErr_eq_ok.1 h3)
  obtain ⟨existing, w4, h4, g4⟩ := bind_eq_ok.1 g3
  obtain ⟨-, -, rfl⟩ := query_eq_ok.1 (mapErr_eq_ok.1 h4)
  cases hdup : existing.find? (·.kernelProgramID = spec.programID) with
  | some x =>
    simp only [attachTCXAt, hdup] at g4
    cases g4
  | none =>
    unfold attachTCXAt at g4
    rw [hdup] at g4
    obtain ⟨_, w5, h5, g5⟩ := bind_eq_ok.1 g4
    obtain ⟨live, w6, h6, g6⟩ := bind_eq_ok.1 g5
    obtain ⟨b, w7, h7, g7⟩ := bind_eq_ok.1 g6
    rw [runPlan_attachTCXPlan] at h7
    obtain ⟨k, w8, h8, h9⟩ := bind_eq_ok.1 h7
    obtain ⟨l, w9, h10, h11⟩ := bind_eq_ok.1 (onErr_eq_ok.1 h9)
    cases h11
    cases g7
    have hsame : w8.store = w4.store :=
      ((exceptLink_kernelAttachTCX _ _ _ _).ok h8).store.trans
        (trans_of SameStore ((adapts_detachLink _).store.mapErr.ok h5)
          ((sameStore_filterLiveTCXLinks _ _).ok h6))
    obtain ⟨-, hc, -⟩ := createLink_eq_ok.1 (mapErr_eq_ok.1 h10)
    rw [hsame] at hc
    obtain ⟨hcr, rfl, hs⟩ := Store.createLink_eq_ok.1 hc
    have hhook : spec.hook? e = some ⟨spec.direction, nsid, ifindex⟩ := by
      simp [TCXAttachSpec.hook?, hns, hif]
    exact ⟨_, _, k, hhook, hcr, rfl, hs⟩

/-- A natural number is its own `int32` exactly if it is below `2 ^ 31`. -/
theorem toInt32_eq_iff {n : Nat} : toInt32 n = n ↔ n < 2 ^ 31 := by
  unfold toInt32
  omega

theorem int32Scans_toInt32 (n : Nat) : int32Scans (toInt32 n) = true := by
  unfold int32Scans toInt32
  simp only [Bool.and_eq_true, decide_eq_true_eq]
  omega

/-- The link of a TCX attach is read back if its priority is an `int32` and those of the store
are. -/
theorem reports_tcx_iff (hs : s.Consistent) {spec : TCXAttachSpec} {hook : TCXHook} {pin : LinkPath}
    {k : KernelLinkID} {now : Nat} (hc : s.Creates now (spec.linkSpec hook pin k)) :
    Reports (s.addLink (newLinkRow now s (spec.linkSpec hook pin k)))
        (newLinkRow now s (spec.linkSpec hook pin k)).id spec.priority ↔
      spec.priority < 2 ^ 31 ∧ s.detailsScan = true := by
  set l := newLinkRow now s (spec.linkSpec hook pin k) with hl
  have hrow : l.standalone = some (.tcx (spec.row hook)) := rfl
  have hs' : (s.addLink l).Consistent := hs.addLink hc.row
    (by rw [LinkRow.Detailed, hrow]; rfl) hc.kind
  have hmem : l ∈ (s.addLink l).links := mem_append_right _ (mem_singleton_self l)
  have hscan : (s.addLink l).detailsScan = true ↔ s.detailsScan = true := by
    rw [detailsScan_iff hs, detailsScan_iff hs']
    refine and_congr_right fun _ => ⟨fun hall x hx => hall x (mem_append_left _ hx), ?_⟩
    intro hall x hx r hr
    rcases mem_append.1 hx with hx | hx
    · exact hall x hx r hr
    · rw [mem_singleton.1 hx, hrow] at hr
      cases hr
      exact int32Scans_toInt32 _
  have hread : ((s.addLink l).listRecord l).priority = some (toInt32 spec.priority) := by
    rfl
  rw [reports_iff hs' hmem, hscan, hread, Option.some.injEq, toInt32_eq_iff, and_comm]

/-! ## Any spec with a priority -/

/-- The priority of a spec of a kind that has one. -/
def AnyAttachSpec.priority : AnyAttachSpec → Option Nat
  | .dispatcher spec => some spec.spec.priority
  | .tcx spec => some spec.priority
  | .probe _ => none

/-- **The priority of an attached link is read back**, by a read of the link and by a listing of the
whole store, exactly if it is below `2 ^ 31` and every priority recorded before is. -/
theorem reports_priority_iff (hs : w.store.Consistent) {scope : Bool} {spec : AnyAttachSpec}
    {priority : Nat} (hp : spec.priority = some priority) {link : LinkRecord}
    (h : attachAny e scope spec w = .ok link w') :
    Reports w'.store link.id priority ↔ priority < 2 ^ 31 ∧ w.store.detailsScan = true := by
  cases spec with
  | dispatcher spec =>
    cases hp
    obtain ⟨key, snap, a, cfg, rt, ha⟩ := attached_of_ok hs h
    have hs' := ha.consistent hs
    obtain ⟨m, hm, hid, hprio⟩ := ha.newLink hs
    have hrow := ((mem_memberRows hs').1 hm).1
    rw [← hid, reports_iff hs' hrow.link, priority_listRecord_member hs' hrow, hprio,
      ha.detailsScan_iff hs]
    exact and_iff_left rfl
  | tcx spec =>
    cases hp
    obtain ⟨prog, w1, h1, g1⟩ := bind_eq_ok.1 h
    obtain ⟨-, rfl⟩ := getProgram_eq_ok h1
    obtain ⟨_, w2, h2, g2⟩ := bind_eq_ok.1 g1
    obtain ⟨-, rfl⟩ := lift_eq_ok.1 h2
    obtain ⟨hook, pin, k, -, hc, rfl, hst⟩ := attachTCX_store g2
    rw [hst]
    exact reports_tcx_iff hs hc
  | probe spec => cases hp

/-- An XDP program at priority 50. -/
theorem reports_priority_sample :
    let out := attachAny (env 1 []) true (.dispatcher (xdp 1 [])) world
    ∃ link w', out = .ok link w' ∧ Reports w'.store link.id (50 : Nat) := by
  have hok : (attachAny (env 1 []) true (.dispatcher (xdp 1 []))
      world).isOk = true := by decide +kernel
  obtain ⟨link, hout⟩ := Outcome.eq_ok_of_isOk hok
  exact ⟨link, _, hout, (reports_priority_iff fresh.inv.store rfl hout).2
    ⟨by decide, by decide +kernel⟩⟩

/-- An XDP program at priority `2 ^ 31` is attached, and then neither its link nor any listing can
be read. A TCX program at priority `2 ^ 32 + 5` is attached and reported at priority 5. -/
theorem large_priority_is_lost :
    let xdp := attachAny (env 1 []) true (.dispatcher (.xdp ⟨1, "eth0", "", 2 ^ 31, [], []⟩))
      world
    let tcx := attachAny (env 1 []) true
      (.tcx { tcxFirst with priority := 2 ^ 32 + 5 }) tcxLoaded
    (xdp.value?.map (·.id) = some 1 ∧ (xdp.state.store.getLink 1).isOk = false ∧
        xdp.state.store.listLinks.isOk = false) ∧
      tcx.value?.map (·.id) = some 1 ∧
        ((tcx.state.store.getLink 1).toOption.bind LinkRecord.priority) = some 5 := by
  decide +kernel

end Bpfman
