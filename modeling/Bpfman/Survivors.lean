import Bpfman.Invariant

/-!
# Members that survive an operation

A rebuild deletes and re-inserts the rows of all members of its attach point. `Survivor` says what
the slot of a member carries from the old rows into the new ones, and `survivor_attach` and
`survivor_detach` find the slot of a member that is there before and after the operation.

The slots are sorted afresh at every rebuild, so the order of two survivors depends on their
priorities and names alone, not on the order they had:

* `positions_of_step` — a step leaves the rows of an attach point alone or sorts them;
* `order_of_step` — when the order of two members is kept.
-/

namespace Bpfman

open Fallible Store

variable {e : Env} {w w' : World} {key : Key}

variable {a a' b : MemberRow} {s : Store} {i : Nat} {rt : DispatcherRuntime}

/-! ## The slot of a survivor -/

/-- What the slot of an existing member carries over, besides its labels. -/
structure Survivor (a : MemberRow) (slot : RebuildSlot) : Prop where
  existing : slot.existingLinkID = some a.link.id
  programID : slot.programID = a.link.programID
  programName : slot.programName = a.program.programName
  priority : slot.priority = a.detail.priority
  ifname : slot.ifname = a.detail.ifname
  mask : proceedOnMask a.detail.key.type a.detail.proceedOn = .ok slot.proceedOn

theorem survivor_attachSlot {m : DispatcherMember} (h : Decodes a m) :
    Survivor a (attachSlot m) ∧ (attachSlot m).metadata = a.link.metadata :=
  ⟨⟨congrArg some h.linkID, h.programID, h.programName, h.priority, h.ifname, h.mask⟩, h.metadata⟩

theorem survivor_detachSlot {m : DispatcherMember} (h : Decodes a m) :
    Survivor a (detachSlot m) ∧ (detachSlot m).metadata = [] :=
  ⟨⟨congrArg some h.linkID, h.programID, h.programName, h.priority, h.ifname, h.mask⟩, rfl⟩

theorem eq_of_link_id (hs : s.Consistent) (ha : s.IsMemberRow a)
    (hb : s.IsMemberRow b) (h : a.link.id = b.link.id) : a = b := by
  have hl : a.link = b.link := Table.eq_of_key hs.linkIDs ha.link hb.link h
  have hd : a.detail = b.detail := Table.eq_of_key hs.detailIDs ha.detail hb.detail
    (ha.link_id.symm.trans (h.trans hb.link_id))
  have hp : a.program = b.program := Table.eq_of_key hs.programIDs ha.program hb.program
    (ha.program_id.trans ((congrArg LinkRow.programID hl).trans hb.program_id.symm))
  cases a
  simp only at hl hd hp
  rw [hl, hd, hp]

section Rebuilt

variable {p : RebuildPlan} {rt : DispatcherRuntime}

/-- The row written for a slot that names a link is the row of that link. -/
theorem Recorded.written_of_slot {s' : Store} (h : Recorded e p rt s s') (hs' : s'.Consistent)
    {slot : RebuildSlot} (hslot : slot ∈ p.slots) {id : LinkID}
    (hid : slot.existingLinkID = some id) (ha' : a' ∈ s'.memberRows p.key)
    (hida : a'.link.id = id) : ∃ i, Written e p rt i slot a' := by
  obtain ⟨i, hi⟩ := List.mem_iff_getElem?.1 hslot
  obtain ⟨m, hm, hw⟩ := h.exists_written hs' hi
  have hmid : m.link.id = id := by
    rw [((mem_memberRows hs').1 hm).1.link_id]
    exact hw.id id hid
  obtain rfl : m = a' := eq_of_link_id hs' ((mem_memberRows hs').1 hm).1
    ((mem_memberRows hs').1 ha').1 (hmid.trans hida.symm)
  exact ⟨i, hw⟩

theorem Written.position {slot : RebuildSlot} {m : MemberRow}
    (h : Written e p rt i slot m) : m.detail.position = i := by
  rw [h.detail]
  rfl

end Rebuilt

/-- A member present before and after an attach keeps its slot, labels included. -/
theorem survivor_attach {spec : AttachSpec} {snap : Option DispatcherSnapshot} {a : RebuildArgs}
    {cfg : Config} {ps : List Prog} (hi : Inv w) (hs' : w'.store.Consistent)
    (h : AttachRun e spec w w' key snap a cfg ps rt) {x x' : MemberRow}
    (hx : x ∈ w.store.memberRows key) (hx' : x' ∈ w'.store.memberRows key)
    (hid : x'.link.id = x.link.id) :
    ∃ i slot, Written e ((spec.kind e).plan e key snap (a.slots snap) cfg) rt i slot x' ∧
      Survivor x slot ∧ slot.metadata = x.link.metadata := by
  obtain ⟨hxr, hxk⟩ := (mem_memberRows hi.store).1 hx
  obtain ⟨s, rfl, hget⟩ : ∃ s, snap = some s ∧
      w.store.getDispatcherSnapshot e.rowOrder key = .ok s := by
    rcases h.snapshot with hs | ⟨-, hno⟩
    · exact hs
    · obtain ⟨row, hrow, hrk, -⟩ := hi.store.detailDispatcher _ hxr.detail
      exact absurd (hrk.trans hxk) (hno row hrow)
  obtain ⟨m, hm, hdec⟩ := exists_member_of_row hget hx
  obtain ⟨hsurv, hmeta⟩ := survivor_attachSlot hdec
  have hslot : attachSlot m ∈ a.slots (some s) :=
    mem_sortRebuildSlots.2 (mem_allSlots.2 (.inl ⟨s, rfl, m, hm, rfl⟩))
  obtain ⟨i, hw⟩ := h.rebuilt.store.written_of_slot hs' hslot hsurv.existing hx' hid
  exact ⟨i, _, hw, hsurv, hmeta⟩

/-- A member present before and after a detach rebuild keeps its slot, but not its labels. -/
theorem survivor_detach {s' : Store} {snap : DispatcherSnapshot} {id : LinkID} {cfg : Config}
    (hs : s.Consistent) (hs' : s'.Consistent)
    (hget : s.getDispatcherSnapshot e.rowOrder key = .ok snap)
    (h : Recorded e ((detachKind e key).plan e (snap.without id) (snap.without id).slots
      (nextRevision snap.revision) cfg) rt s s') {x x' : MemberRow}
    (hx : x ∈ s.memberRows key) (hx' : x' ∈ s'.memberRows key) (hid : x'.link.id = x.link.id) :
    ∃ i slot, Written e ((detachKind e key).plan e (snap.without id) (snap.without id).slots
      (nextRevision snap.revision) cfg) rt i slot x' ∧ Survivor x slot ∧ slot.metadata = [] := by
  obtain ⟨row, -, -, hsk, -⟩ := getDispatcherSnapshot_eq_ok hget
  obtain ⟨i, slot, hw⟩ := h.written hs' (show x' ∈ s'.memberRows (snap.without id).key from
    hsk.symm ▸ hx')
  refine ⟨i, slot, hw, ?_⟩
  obtain ⟨m, hm, rfl⟩ := List.mem_map.1 (mem_sortRebuildSlots.1 (List.mem_of_getElem? hw.at_slot))
  obtain ⟨y, hy, hdec⟩ := exists_row_of_member hget (List.mem_filter.1 hm).1
  have hyid : y.link.id = x.link.id := by
    rw [← hid, ((mem_memberRows hs').1 hx').1.link_id, ← hdec.linkID]
    exact (hw.id m.linkID rfl).symm
  obtain rfl : y = x := eq_of_link_id hs ((mem_memberRows hs).1 hy).1
    ((mem_memberRows hs).1 hx).1 hyid
  exact survivor_detachSlot hdec

/-! ## The order of survivors -/

/-- Sorted slots with distinct keys stand in the order of their keys. -/
theorem index_lt_of_slotKey {slots : List RebuildSlot} {j : Nat} {s t : RebuildSlot}
    (hi : (sortRebuildSlots slots)[i]? = some s) (hj : (sortRebuildSlots slots)[j]? = some t)
    (h : slotKey s < slotKey t) : i < j := by
  by_contra hle
  rcases (not_lt.1 hle).lt_or_eq with hlt | rfl
  · exact absurd (Table.pairwise_getElem? (sortRebuildSlots_sorted slots) hlt hj hi) h.not_ge
  · rw [hi] at hj
    cases hj
    exact lt_irrefl _ h

/-- `a` sorts before `b`: by priority, and by name among equal priorities. -/
def SortsBefore (a b : MemberRow) : Prop :=
  a.detail.priority < b.detail.priority ∨
    (a.detail.priority = b.detail.priority ∧ a.program.programName < b.program.programName)

/-- **After a rebuild two survivors stand in sorted order**, whatever their order was. -/
theorem position_lt_of_sortsBefore {p : RebuildPlan} {slots : List RebuildSlot}
    (hp : p.slots = sortRebuildSlots slots) {b' : MemberRow}
    {j : Nat} {sa sb : RebuildSlot} (hwa : Written e p rt i sa a') (hwb : Written e p rt j sb b')
    (ha : Survivor a sa) (hb : Survivor b sb) (h : SortsBefore a b) :
    a'.detail.position < b'.detail.position := by
  rw [hwa.position, hwb.position]
  refine index_lt_of_slotKey (hp ▸ hwa.at_slot) (hp ▸ hwb.at_slot) ?_
  refine slotKey_lt_of_attached (by simp [ha.existing]) (by simp [hb.existing]) ?_
  rw [ha.priority, hb.priority, ha.programName, hb.programName]
  exact h

theorem eq_of_sameAt (hi : Inv w) (hs' : w'.store.Consistent)
    (h : SameAt key w.store w'.store) (ha : a ∈ w.store.memberRows key)
    (ha' : a' ∈ w'.store.memberRows key) (hid : a'.link.id = a.link.id) : a' = a := by
  rw [h.memberRows_eq hi.store hs'] at ha'
  exact eq_of_link_id hi.store ((mem_memberRows hi.store).1 ha').1
    ((mem_memberRows hi.store).1 ha).1 hid

/-- A step either rewrites the rows of an attach point in sorted order, or leaves them alone, or
removes them all. -/
theorem positions_of_step (hi : Inv w) (hstep : Step w w') {b' : MemberRow}
    (ha : a ∈ w.store.memberRows key) (hb : b ∈ w.store.memberRows key)
    (ha' : a' ∈ w'.store.memberRows key) (hb' : b' ∈ w'.store.memberRows key)
    (hida : a'.link.id = a.link.id) (hidb : b'.link.id = b.link.id) :
    (a' = a ∧ b' = b) ∨ ((SortsBefore a b → a'.detail.position < b'.detail.position) ∧
      (SortsBefore b a → b'.detail.position < a'.detail.position)) := by
  have hi' : Inv w' := inv_step hi hstep
  have same : SameAt key w.store w'.store → a' = a ∧ b' = b := fun h =>
    ⟨eq_of_sameAt hi hi'.store h ha ha' hida, eq_of_sameAt hi hi'.store h hb hb' hidb⟩
  cases hstep with
  | attach h =>
    obtain ⟨k, snap, args, cfg, ps, rt, hrun⟩ := attachRun_of_ok hi h
    by_cases hk : key = k
    · subst hk
      obtain ⟨i, sa, hwa, hsa, -⟩ := survivor_attach hi hi'.store hrun ha ha' hida
      obtain ⟨j, sb, hwb, hsb, -⟩ := survivor_attach hi hi'.store hrun hb hb' hidb
      exact .inr ⟨position_lt_of_sortsBefore rfl hwa hwb hsa hsb,
        position_lt_of_sortsBefore rfl hwb hwa hsb hsa⟩
    · obtain ⟨completed, hrep⟩ := hrun.rebuilt.store
      exact .inl (same (sameAt_replace hi.store hrep hk))
  | @detach e id _ _ h =>
    cases detachRun_of_ok hi h with
    | plain l hl hid hkind hstore _ _ _ =>
      subst hid
      exact .inl (same (hstore ▸ sameAt_deletePlain hi.store hl hkind key))
    | removed m snap hm hid hsnap hrem hstore frame =>
      by_cases hk : key = m.detail.key
      · subst hk
        obtain ⟨hrow, hkey⟩ := (mem_memberRows hi'.store).1 ha'
        have hd := hrow.detail
        rw [Store.deleteDispatcherSnapshot_eq_ok hstore] at hd
        exact absurd hkey ((mem_deleteAttachPoint_details hi.store).1 hd).2
      · exact .inl (same (sameAt_deleteSnapshot hi.store hstore hk))
    | rebuilt m snap cfg ps rt w1 hm hid hsnap hrem hstore _ hprog config hreb frame =>
      by_cases hk : key = m.detail.key
      · subst hk
        have hrec := hstore ▸ hreb.store
        obtain ⟨i, sa, hwa, hsa, -⟩ := survivor_detach hi.store hi'.store hsnap hrec ha ha' hida
        obtain ⟨j, sb, hwb, hsb, -⟩ := survivor_detach hi.store hi'.store hsnap hrec hb hb' hidb
        exact .inr ⟨position_lt_of_sortsBefore rfl hwa hwb hsa hsb,
          position_lt_of_sortsBefore rfl hwb hwa hsb hsa⟩
      · obtain ⟨completed, hrep⟩ := hreb.store
        rw [hstore] at hrep
        obtain ⟨row, -, -, hsk, -⟩ := getDispatcherSnapshot_eq_ok hsnap
        exact .inl (same (sameAt_replace hi.store hrep (hsk.symm ▸ hk)))

/-- Two members of an attach point that are there before and after an operation, in positions that
ascend before it and related by `R`, are in positions that ascend after it. -/
def KeepsOrder (R : MemberRow → MemberRow → Prop) (key : Key) (w w' : World) : Prop :=
  ∀ a ∈ w.store.memberRows key, ∀ b ∈ w.store.memberRows key,
    ∀ a' ∈ w'.store.memberRows key, ∀ b' ∈ w'.store.memberRows key,
      a'.link.id = a.link.id → b'.link.id = b.link.id → a.detail.position < b.detail.position →
        R a b → a'.detail.position < b'.detail.position

/-- The priorities differ, or the names ascend. -/
def Distinguished (a b : MemberRow) : Prop :=
  a.detail.priority ≠ b.detail.priority ∨ a.program.programName < b.program.programName

/-- The rows of an attach point ascend by priority. -/
theorem Inv.priority_le (hi : Inv w) (ha : a ∈ w.store.memberRows key)
    (hb : b ∈ w.store.memberRows key) (h : a.detail.position < b.detail.position) :
    a.detail.priority ≤ b.detail.priority := by
  obtain ⟨hrow, hk⟩ := (mem_memberRows hi.store).1 ha
  obtain ⟨row, hrowm, hrk, -⟩ := hi.store.detailDispatcher _ hrow.detail
  obtain rfl : row.key = key := hrk.trans hk
  exact (hi.dispatchers row hrowm).priorities a ha b hb h.le

/-- **The order of two members is kept** by every successful attach and detach, if their priorities
differ or the one that runs first has the smaller program name. -/
theorem order_of_step {w₀ : World} (h₀ : Fresh w₀) (hrun : Run w₀ w) (hstep : Step w w')
    (key : Key) : KeepsOrder Distinguished key w w' := by
  intro a ha b hb a' ha' b' hb' hida hidb hlt hcmp
  have hi : Inv w := inv_run h₀.inv hrun
  rcases positions_of_step hi hstep ha hb ha' hb' hida hidb with ⟨rfl, rfl⟩ | ⟨h, -⟩
  · exact hlt
  · refine h ?_
    have hle := hi.priority_le ha hb hlt
    rcases hle.lt_or_eq with hp | hp
    · exact .inl hp
    · exact .inr ⟨hp, hcmp.resolve_left fun hne => hne hp⟩

instance (R : MemberRow → MemberRow → Prop) [DecidableRel R] (key : Key) (w w' : World) :
    Decidable (KeepsOrder R key w w') := by
  unfold KeepsOrder
  infer_instance

open Sample

/-- Two members with names in order, and a third attach. -/
theorem order_of_step_sample :
    let w := attached [xdp 3 [], xdp 2 []]
    let w' := (attach (env 3 []) (xdp 1 []) w).state
    (w.store.details.map fun d => (d.id, d.position)) = [(2, 0), (1, 1)] ∧
      (w'.store.details.map fun d => (d.id, d.position)) = [(3, 0), (2, 1), (1, 2)] ∧
      KeepsOrder Distinguished xdpKey w w' := by
  refine ⟨by decide +kernel, by decide +kernel, ?_⟩
  exact order_of_step fresh (run_attachAll (by decide +kernel))
    (Step.of_attach (by decide +kernel)) xdpKey

/-- Of two members at one priority the one attached later runs first, until the next rebuild sorts
them by name: attaching a third program swaps them. -/
theorem attach_swaps_members :
    let w := attached [xdp 2 [], xdp 3 []]
    let w' := (attach (env 3 []) (xdp 1 []) w).state
    Run world w ∧ Step w w' ∧
      (w.store.details.map fun d => (d.id, d.position)) = [(2, 0), (1, 1)] ∧
      (w'.store.details.map fun d => (d.id, d.position)) = [(3, 0), (1, 1), (2, 2)] ∧
      ¬ KeepsOrder (fun _ _ => True) xdpKey w w' :=
  ⟨run_attachAll (by decide +kernel), Step.of_attach (by decide +kernel), by decide +kernel⟩

end Bpfman
