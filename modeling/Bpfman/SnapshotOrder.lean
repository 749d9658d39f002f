import Bpfman.Invariant
import Bpfman.Lib.Arrange

/-!
# The order of a snapshot read

A rebuild numbers its slots by priority, new before old, name; `ReplaceDispatcherSnapshot` writes
and returns the members in that order. `GetDispatcherSnapshot` reads them ordered by priority and
name. The two orders agree when among members of equal priority the slots follow the names
(`SlotsByName`), which a second attach at the priority of the first can break.

* `WrittenAs` — the rows of an attach point are those of a snapshot, in slot order;
* `Rebuilt.writtenAs` — a rebuild leaves its rows so;
* `lastWrite_of_run` — after every run each dispatcher has the snapshot that was last written for
  it;
* `snapshotRead_iff` — when the read returns the members in slot order, and the written snapshot.
-/

namespace Bpfman

open Fallible List Store

variable {rows : List MemberRow}

/-! ## What the database may return -/

/-- An order that returns `out` for `rows`. -/
def RowOrder.returning (rows out : List MemberRow) (hp : out.Perm rows)
    (hs : out.Pairwise MemberRow.le) : RowOrder where
  order l := if l = rows then out else RowOrder.stable.order l
  perm l := by
    by_cases h : l = rows
    · rw [if_pos h, h]
      exact hp
    · rw [if_neg h]
      exact RowOrder.stable.perm l
  sorted l := by
    by_cases h : l = rows
    · rw [if_pos h]
      exact hs
    · rw [if_neg h]
      exact RowOrder.stable.sorted l

theorem RowOrder.returning_order {out : List MemberRow} (hp : out.Perm rows)
    (hs : out.Pairwise MemberRow.le) : (returning rows out hp hs).order rows = out := if_pos rfl

/-- **Every database returns the rows as they stand** iff no two of them tie and they are sorted. -/
theorem order_eq_iff (hn : rows.Nodup) :
    (∀ ord : RowOrder, ord.order rows = rows) ↔
      rows.Pairwise fun a b => a.le b ∧ ¬ b.le a := by
  rw [← Arrange.only_arrangement_iff hn]
  constructor
  · intro h out hp hs
    have := h (.returning rows out hp hs)
    rwa [RowOrder.returning_order] at this
  · intro h ord
    exact h _ (ord.perm rows) (ord.sorted rows)

/-! ## The rows of a snapshot -/

/-- The rows of attach point `key` are those of snapshot `snap`, in slot order. -/
structure WrittenAs (s : Store) (key : Key) (snap : DispatcherSnapshot) : Prop where
  row : ∃ r ∈ s.dispatchers, r.key = key ∧
    snap = ⟨key, r.revision, Store.dispatcherRuntime r, snap.members⟩
  members : List.Forall₂ (fun m x => Store.decodeMember m = .ok x) (s.memberRows key) snap.members
  positions : (s.memberRows key).Pairwise fun a b => a.detail.position < b.detail.position

/-- Among members of equal priority the slots follow the program names. -/
def SlotsByName (s : Store) (key : Key) : Prop :=
  ∀ a ∈ s.memberRows key, ∀ b ∈ s.memberRows key, a.detail.position < b.detail.position →
    a.detail.priority = b.detail.priority → a.program.programName < b.program.programName

/-- The members of a snapshot are in slot order. -/
def InSlotOrder (snap : DispatcherSnapshot) : Prop :=
  snap.members.Pairwise fun a b => a.position < b.position

section Read

variable {s : Store} {key : Key} {snap got : DispatcherSnapshot} {ord : RowOrder}

theorem pairwise_position {ms : List DispatcherMember} (h : List.Forall₂ Decodes rows ms) :
    (ms.Pairwise fun a b => a.position < b.position) ↔
      rows.Pairwise fun a b => a.detail.position < b.detail.position := by
  have hmap : ms.map (·.position) = rows.map (·.detail.position) := by
    induction h with
    | nil => rfl
    | cons hd _ ih => rw [map_cons, map_cons, hd.position, ih]
  have h1 := pairwise_map (l := ms) (f := (·.position)) (R := (· < ·))
  have h2 := pairwise_map (l := rows) (f := (·.detail.position)) (R := (· < ·))
  rw [← h1, hmap, h2]

namespace WrittenAs

variable (h : WrittenAs s key snap)
include h

theorem nodup : (s.memberRows key).Nodup :=
  h.positions.imp fun hlt heq => absurd (congrArg (·.detail.position) heq) hlt.ne

/-- A list of rows in slot order is the list of the table. -/
theorem eq_of_positions (hp : rows.Perm (s.memberRows key))
    (hlt : rows.Pairwise fun a b => a.detail.position < b.detail.position) :
    rows = s.memberRows key :=
  hp.eq_of_pairwise (fun _ _ _ _ hab hba => absurd hab hba.asymm) hlt h.positions

/-- A read is in slot order iff the database returned the rows as they stand. -/
theorem inSlotOrder_iff (hg : s.getDispatcherSnapshot ord key = .ok got) :
    InSlotOrder got ↔ ord.order (s.memberRows key) = s.memberRows key := by
  obtain ⟨-, -, -, -, -, -, hall⟩ := getDispatcherSnapshot_eq_ok hg
  unfold InSlotOrder
  rw [pairwise_position hall]
  constructor
  · exact h.eq_of_positions (ord.perm _)
  · intro heq
    rw [heq]
    exact h.positions

/-- A read returns the written snapshot iff the database returned the rows as they stand. -/
theorem get_iff (hs : s.Consistent) :
    s.getDispatcherSnapshot ord key = .ok snap ↔
      ord.order (s.memberRows key) = s.memberRows key := by
  constructor
  · intro hg
    refine (h.inSlotOrder_iff hg).1 ?_
    have hdec : List.Forall₂ Decodes (s.memberRows key) snap.members :=
      h.members.imp fun _ _ => decodeMember_eq_ok
    exact (pairwise_position hdec).2 h.positions
  · intro heq
    obtain ⟨r, hr, hrk, hsnap⟩ := h.row
    have hfind : s.dispatchers.find? (fun x => decide (x.key = key)) = some r :=
      Table.find_of_mem hs.dispatcherKeys hr hrk
    unfold Store.getDispatcherSnapshot
    simp only [hfind, heq, mapM_eq_ok.2 h.members, bind, Except.bind]
    rw [← hsnap]

/-- No two rows tie and they are sorted iff the slots follow the names at each priority. -/
theorem pairwise_iff (hprio : ∀ a ∈ s.memberRows key, ∀ b ∈ s.memberRows key,
      a.detail.position ≤ b.detail.position → a.detail.priority ≤ b.detail.priority) :
    ((s.memberRows key).Pairwise fun a b => a.le b ∧ ¬ b.le a) ↔ SlotsByName s key := by
  constructor
  · intro hp a ha b hb hlt heq
    obtain ⟨-, hnot⟩ := Arrange.rel_of_lt h.positions hp ha hb hlt
    by_contra hname
    exact hnot (.inr ⟨heq.symm, not_lt.1 hname⟩)
  · intro hn
    refine h.positions.imp_of_mem fun {a b} ha hb hlt => ?_
    rcases (hprio a ha b hb hlt.le).lt_or_eq with hp | hp
    · refine ⟨.inl hp, ?_⟩
      rintro (hgt | ⟨heq, -⟩)
      · exact absurd hp hgt.asymm
      · exact absurd heq hp.ne'
    · have hname := hn a ha b hb hlt hp
      refine ⟨.inr ⟨hp, hname.le⟩, ?_⟩
      rintro (hgt | ⟨-, hle⟩)
      · exact absurd hp hgt.ne'
      · exact absurd hname hle.not_gt

end WrittenAs

end Read

/-! ## A rebuild leaves its rows so -/

/-- The slots carry the names and pins of program rows. -/
def NamesPrograms (s : Store) (slots : List RebuildSlot) : Prop :=
  ∀ slot ∈ slots, ∃ p ∈ s.programs, p.programID = slot.programID ∧
    p.programName = slot.programName ∧ p.pinPath = slot.progPinPath

section Rebuilt

variable {e : Env} {w w' : World} {p : RebuildPlan} {ps : List Prog} {rt : DispatcherRuntime}
  {snap : DispatcherSnapshot}

/-- The row of an inserted member decodes to the member the write reports. -/
theorem decodeMember_new {s : Store} {key : Key} {now : Nat} (hs : s.Consistent) {row : MemberRow}
    (hrow : s.IsMemberRow row) {n : NewMember} (hd : row.detail = n.detail key rt)
    (hl : n.link now key ∈ s.links) (hbits : ∀ b, n.spec.proceedOn.testBit b = true → b < 32)
    (hcodes : proceedOnActions key.type n.spec.proceedOn = .ok n.codes)
    (hname : ∃ q ∈ s.programs, q.programID = n.spec.programID ∧
      q.programName = n.spec.programName ∧ q.pinPath = n.spec.progPinPath) :
    decodeMember row = .ok (completedMember n.id n.spec) := by
  have hlink : row.link = n.link now key :=
    Table.eq_of_key hs.linkIDs hrow.link hl (hrow.link_id.trans (by rw [hd]; rfl))
  obtain ⟨q, hq, hqid, hqname, hqpin⟩ := hname
  have hprog : row.program = q := by
    refine Table.eq_of_key hs.programIDs hrow.program hq ?_
    rw [hrow.program_id, hlink, hqid]
    rfl
  have hmask : proceedOnMask row.detail.key.type row.detail.proceedOn = .ok n.spec.proceedOn := by
    rw [hd]
    exact proceedOnMask_actions hbits hcodes
  unfold decodeMember
  rw [hmask, hlink, hprog, hqname, hqpin, hd]
  rfl

theorem Rebuilt.writtenAs (h : Rebuilt e p w w' ps rt) (hs' : w'.store.Consistent)
    (hb : MasksFit p.slots) (hn : NamesPrograms w.store p.slots)
    (hrep : w.store.replaceDispatcherSnapshot e.now (p.spec e rt) = .ok (w'.store, snap)) :
    WrittenAs w'.store p.key snap := by
  obtain ⟨ns, hns, hok, hl, hd, hdisp, hprogs, -, -, -, rfl⟩ := replace_spec hrep
  refine ⟨⟨dispatcherRow (p.spec e rt), by simp [hdisp], rfl, rfl⟩, ?_, ?_⟩
  · rw [forall₂_map_right_iff]
    have hmap : (w'.store.memberRows p.key).map (·.detail) = ns.map (·.detail p.key rt) := by
      rw [memberRows_map_detail hs', hd]
      exact filter_replaced w.store p.key rt ns
    have hpair : List.Forall₂ (fun row n => row.detail = n.detail p.key rt)
        (w'.store.memberRows p.key) ns := by
      rwa [← forall₂_eq_eq_eq, forall₂_map_left_iff, forall₂_map_right_iff] at hmap
    obtain ⟨hlen, hzip⟩ := forall₂_iff_zip.1 hpair
    refine forall₂_iff_zip.2 ⟨hlen, fun {row n} hmem => ?_⟩
    obtain ⟨hrow, hn'⟩ := of_mem_zip hmem
    have hspec : n.spec ∈ (p.spec e rt).members := hns ▸ mem_map_of_mem hn'
    obtain ⟨i, hi⟩ := mem_iff_getElem?.1 hspec
    rw [RebuildPlan.spec, getElem?_dispatcherMembers] at hi
    obtain ⟨slot, hslot, hsl⟩ := Option.map_eq_some_iff.1 hi
    have hslot := mem_of_getElem? hslot
    have hlink : n.link e.now p.key ∈ w'.store.links := by
      rw [hl]
      exact mem_append_right _ (mem_map_of_mem hn')
    refine decodeMember_new hs' ((mem_memberRows hs').1 hrow).1 (hzip hmem) hlink ?_
      (hok n hn').1 ?_
    · rw [← hsl]
      exact hb slot hslot
    · rw [← hsl, hprogs]
      exact hn slot hslot
  · have hpos := h.positions hs'
    have hlt : ((w'.store.memberRows p.key).map (·.detail.position)).Pairwise (· < ·) := by
      rw [hpos]
      exact pairwise_lt_range
    exact pairwise_map.1 hlt

end Rebuilt

/-- A member read from the store carries the name and pin of its program row. -/
theorem exists_program_of_member {s : Store} {key : Key} (hs : s.Consistent) {ord : RowOrder}
    {snap : DispatcherSnapshot} (hg : s.getDispatcherSnapshot ord key = .ok snap)
    {m : DispatcherMember} (hm : m ∈ snap.members) :
    ∃ p ∈ s.programs, p.programID = m.programID ∧ p.programName = m.programName ∧
      p.pinPath = m.progPinPath := by
  obtain ⟨row, hrow, hdec⟩ := exists_row_of_member hg hm
  obtain ⟨hmr, -⟩ := (mem_memberRows hs).1 hrow
  exact ⟨row.program, hmr.program, hmr.program_id.trans hdec.programID.symm,
    hdec.programName.symm, hdec.progPinPath.symm⟩

/-! ## Runs -/

section Runs

variable {w₀ w w' : World} {key : Key} {snap : DispatcherSnapshot}

/-- What a step does to the dispatcher of an attach point: leave its rows, or write a snapshot. -/
def Tracked (w w' : World) (key : Key) : Prop :=
  Store.SameAt key w.store w'.store ∨
    ∃ snap, (∃ now spec, spec.key = key ∧
        w.store.replaceDispatcherSnapshot now spec = .ok (w'.store, snap)) ∧
      WrittenAs w'.store key snap

theorem tracked_of_rebuilt {e : Env} {p : RebuildPlan} {w1 : World} {ps : List Prog}
    {rt : DispatcherRuntime} (hi : Inv w) (hi' : Inv w') (hst : w1.store = w.store)
    (hr : Rebuilt e p w1 w' ps rt) (hb : MasksFit p.slots) (hn : NamesPrograms w.store p.slots)
    (key : Key) : Tracked w w' key := by
  obtain ⟨snap, hrep⟩ := hr.store
  by_cases hk : key = p.key
  · subst hk
    refine .inr ⟨snap, ⟨e.now, p.spec e rt, rfl, hst ▸ hrep⟩, ?_⟩
    exact hr.writtenAs hi'.store hb (hst.symm ▸ hn) hrep
  · rw [hst] at hrep
    exact .inl (sameAt_replace hi.store hrep hk)

theorem tracked_attach (hi : Inv w) {e : Env} {spec : AttachSpec} {link : LinkRecord}
    (h : attach e spec w = .ok link w') (key : Key) : Tracked w w' key := by
  obtain ⟨k, snap, a, cfg, ps, rt, hrun, hprog⟩ := attachRun_named hi h
  refine tracked_of_rebuilt hi (inv_attach hi h) rfl hrun.rebuilt (hrun.masksFit hi) ?_ key
  intro slot hslot
  rcases mem_allSlots.1 (mem_sortRebuildSlots.1 hslot) with ⟨sn, hsn, m, hm, rfl⟩ | rfl
  · exact exists_program_of_member hi.store (hrun.get hsn) hm
  · exact hprog

/-- A dispatcher row after a detach is tracked: the removed one is not there. -/
theorem tracked_detach (hi : Inv w) {e : Env} {id : LinkID} (h : detach e id w = .ok () w')
    {row : DispatcherRow} (hrow : row ∈ w'.store.dispatchers) : Tracked w w' row.key := by
  have hi' := inv_detach hi h
  cases detachRun_of_ok hi h with
  | plain l hl hid hkind hstore hprog hfilters hlink =>
    rw [← hid] at hstore
    exact .inl (hstore ▸ sameAt_deletePlain hi.store hl hkind row.key)
  | removed m snap hm hid hsnap hrem hstore frame =>
    refine .inl (sameAt_deleteSnapshot hi.store hstore ?_)
    rw [Store.deleteDispatcherSnapshot_eq_ok hstore] at hrow
    exact of_decide_eq_true (mem_filter.1 hrow).2
  | rebuilt m snap cfg ps rt w1 hm hid hsnap hrem hstore _ hprog config hreb frame =>
    have hb : MasksFit (snap.without id).slots := (hi.slots_detach hsnap).2
    refine tracked_of_rebuilt hi hi' hstore hreb hb ?_ row.key
    intro slot hslot
    obtain ⟨x, hx, rfl⟩ := mem_map.1 (mem_sortRebuildSlots.1 hslot)
    exact exists_program_of_member hi.store hsnap (mem_filter.1 hx).1

theorem tracked_step (hi : Inv w) (h : Step w w') {row : DispatcherRow}
    (hrow : row ∈ w'.store.dispatchers) : Tracked w w' row.key := by
  cases h with
  | attach h => exact tracked_attach hi h row.key
  | detach h => exact tracked_detach hi h hrow

/-- Snapshot `snap` was returned by the last write for the attach point on a run to `w`: one step
of the run wrote it, and the rows of the attach point are still those of that step. -/
def LastWrite (w₀ w : World) (key : Key) (snap : DispatcherSnapshot) : Prop :=
  ∃ w₁ w₂, Run w₀ w₁ ∧ Step w₁ w₂ ∧ Run w₂ w ∧
    (∃ now spec, spec.key = key ∧
      w₁.store.replaceDispatcherSnapshot now spec = .ok (w₂.store, snap)) ∧
    Store.SameAt key w₂.store w.store

theorem WrittenAs.frame {s s' : Store} (h : WrittenAs s key snap) (hs : s.Consistent)
    (hs' : s'.Consistent) (hsame : SameAt key s s') : WrittenAs s' key snap := by
  obtain ⟨r, hr, hrk, hsnap⟩ := h.row
  have hrows := hsame.memberRows_eq hs hs'
  exact ⟨⟨r, (hsame.dispatchers r hrk).2 hr, hrk, hsnap⟩, hrows ▸ h.members, hrows ▸ h.positions⟩

/-- **After every run** each dispatcher has the rows of the snapshot last written for it. -/
theorem lastWrite_of_run (h0 : Fresh w₀) (h : Run w₀ w) :
    ∀ row ∈ w.store.dispatchers, ∃ snap, LastWrite w₀ w row.key snap ∧
      WrittenAs w.store row.key snap := by
  induction h with
  | refl =>
    intro row hrow
    simp [h0.dispatchers] at hrow
  | tail hrun hstep ih =>
    rename_i w w'
    intro row hrow
    have hi := inv_run h0.inv hrun
    rcases tracked_step hi hstep hrow with hsame | ⟨snap, hreplaced, hwritten⟩
    · obtain ⟨snap, ⟨w1, w2, h1, hst, h2, hwr, hs⟩, hw⟩ :=
        ih row ((hsame.dispatchers row rfl).1 hrow)
      exact ⟨snap, ⟨w1, w2, h1, hst, h2.tail hstep, hwr, hs.trans hsame⟩,
        hw.frame hi.store (inv_step hi hstep).store hsame⟩
    · exact ⟨snap, ⟨w, w', hrun, hstep, .refl, hreplaced, .refl _ _⟩, hwritten⟩

/-- **A snapshot read after any run.** Every database returns the members in slot order iff the
slots follow the program names at each priority, and under the same condition the read returns the
snapshot that was last written. -/
theorem snapshotRead_iff (h₀ : Fresh w₀) (h : Run w₀ w) {row : DispatcherRow}
    (hrow : row ∈ w.store.dispatchers) :
    ∃ snap, LastWrite w₀ w row.key snap ∧
      ((∀ ord, ∃ got, w.store.getDispatcherSnapshot ord row.key = .ok got ∧ InSlotOrder got) ↔
        SlotsByName w.store row.key) ∧
      ((∀ ord, w.store.getDispatcherSnapshot ord row.key = .ok snap) ↔
        SlotsByName w.store row.key) := by
  obtain ⟨snap, hlast, hw⟩ := lastWrite_of_run h₀ h row hrow
  have hs := (inv_run h₀.inv h).store
  have horder : (∀ ord : RowOrder, ord.order (w.store.memberRows row.key) =
      w.store.memberRows row.key) ↔ SlotsByName w.store row.key :=
    (order_eq_iff hw.nodup).trans (hw.pairwise_iff (dispatcherOK_of_run h₀ h row hrow).priorities)
  refine ⟨snap, hlast, ?_, ?_⟩
  · rw [← horder]
    refine forall_congr' fun ord => ?_
    obtain ⟨got, hgot⟩ := getDispatcherSnapshot_isOk hs ord ⟨row, hrow, rfl⟩
    rw [← hw.inSlotOrder_iff hgot]
    constructor
    · rintro ⟨got', hgot', hsorted⟩
      rw [hgot] at hgot'
      cases hgot'
      exact hsorted
    · exact fun hsorted => ⟨got, hgot, hsorted⟩
  · rw [← horder]
    exact forall_congr' fun ord => hw.get_iff hs

/-- The condition reads the slot, the priority and the name of each member. -/
theorem slotsByName_of_map {s : Store} {rows : List (Nat × Nat × String)}
    (hrows : (s.memberRows key).map
      (fun m => (m.detail.position, m.detail.priority, m.program.programName)) = rows)
    (h : ∀ a ∈ rows, ∀ b ∈ rows, a.1 < b.1 → a.2.1 = b.2.1 → a.2.2 < b.2.2) :
    SlotsByName s key := by
  intro a ha b hb
  rw [← hrows] at h
  exact h _ (mem_map_of_mem ha) _ (mem_map_of_mem hb)

open Sample

/-- Program `b` is attached before program `a`, at one priority: slot 0 is `a`'s. -/
theorem snapshotRead_iff_sample :
    let w := attached [xdp 2 [], xdp 1 []]
    SlotsByName w.store xdpKey ∧
      ∃ snap, LastWrite world w xdpKey snap ∧
        ∀ ord, w.store.getDispatcherSnapshot ord xdpKey = .ok snap := by
  have hrun : Run world (attached [xdp 2 [], xdp 1 []]) := run_attachAll (by decide +kernel)
  have hnames : SlotsByName (attached [xdp 2 [], xdp 1 []]).store
      xdpKey :=
    @slotsByName_of_map _ _ [(0, 50, "a"), (1, 50, "b")] (by decide +kernel) (by decide)
  have hkeys : (attached [xdp 2 [], xdp 1 []]).store.dispatchers.map (·.key) =
      [xdpKey] := by decide +kernel
  obtain ⟨row, hrow, hkey⟩ := mem_map.1 (hkeys ▸ mem_singleton_self xdpKey)
  obtain ⟨snap, hlast, -, hread⟩ := snapshotRead_iff fresh hrun hrow
  rw [hkey] at hlast hread
  exact ⟨hnames, snap, hlast, hread.2 hnames⟩

/-- Program `a` is attached first and `b` second, at one priority: the new member takes slot 0, and
the read returns `a` of slot 1 before it. -/
theorem snapshot_read_out_of_order :
    let w := attached [xdp 1 [], xdp 2 []]
    Run world w ∧
      (w.store.getDispatcherSnapshot .stable xdpKey).toOption.map
        (fun snap => snap.members.map fun m => (m.programName, m.position)) =
          some [("a", 1), ("b", 0)] := by
  exact ⟨run_attachAll (by decide +kernel), by decide +kernel⟩

end Runs

end Bpfman
