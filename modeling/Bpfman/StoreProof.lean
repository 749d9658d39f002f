import Bpfman.Store
import Bpfman.Lib.Table

/-!
# The store: what a snapshot write does

`Consistent` collects what the schema and the writes keep true of the tables: unique ids, every
detail row with its link, program and dispatcher, positions unique at an attach point, proceed-on
codes that decode. The main results describe a successful snapshot write:

* `replace_spec` — the rows of the store after it, member by member;
* `consistent_replace`, `consistent_deleteSnapshot` — it keeps the store consistent.
-/

namespace Bpfman

open List Fallible.Proc

variable {l : LinkRow} {d : DetailRow}

/-- The detail row of the link is in the table of its kind. A dispatcher-backed link has none of its
own. -/
def LinkRow.Detailed (l : LinkRow) : Prop :=
  match l.standalone with
  | none => l.kind = .xdp ∨ l.kind = .tc
  | some row => row.serves l.kind = true

theorem StandaloneRow.kind_ne (row : StandaloneRow) : row.kind ≠ .xdp ∧ row.kind ≠ .tc := by
  rcases row with (⟨_, _⟩ | ⟨_, _, _ | _⟩ | ⟨_, _, _, _, _, _ | _⟩ | _ | _) | _ <;>
    exact ⟨LinkKind.noConfusion, LinkKind.noConfusion⟩

theorem StandaloneRow.serves_dispatcher {row : StandaloneRow} {kind : LinkKind}
    (h : row.serves kind = true) : ¬ (kind = .xdp ∨ kind = .tc) := by
  have hlabel := of_decide_eq_true h
  obtain ⟨hxdp, htc⟩ := row.kind_ne
  generalize row.kind = k at hlabel hxdp htc
  rintro (rfl | rfl) <;> cases k <;> simp_all [LinkKind.detailLabel]

theorem LinkRow.Detailed.none (h : l.Detailed) (hk : l.kind = .xdp ∨ l.kind = .tc) :
    l.standalone = none := by
  cases hrow : l.standalone with
  | none => rfl
  | some row =>
    unfold LinkRow.Detailed at h
    rw [hrow] at h
    exact absurd hk (StandaloneRow.serves_dispatcher h)

theorem LinkRow.Detailed.some (h : l.Detailed) (hk : ¬ (l.kind = .xdp ∨ l.kind = .tc)) :
    ∃ row, l.standalone = some row ∧ row.serves l.kind = true := by
  cases hrow : l.standalone with
  | none =>
    unfold LinkRow.Detailed at h
    rw [hrow] at h
    exact absurd h hk
  | some row =>
    unfold LinkRow.Detailed at h
    rw [hrow] at h
    exact ⟨row, rfl, h⟩

namespace Store

/-- What holds of the tables in every state the manager's writes lead to. -/
structure Consistent (s : Store) : Prop where
  programIDs : (s.programs.map (·.programID)).Nodup
  linkIDs : (s.links.map (·.id)).Nodup
  detailIDs : (s.details.map (·.id)).Nodup
  dispatcherKeys : (s.dispatchers.map (·.key)).Nodup
  dispatcherIDs : (s.dispatchers.map (·.programID)).Nodup
  linkProgram : ∀ l ∈ s.links, ∃ p ∈ s.programs, p.programID = l.programID
  linkDetail : ∀ l ∈ s.links, l.kind = .xdp ∨ l.kind = .tc → ∃ d ∈ s.details, d.id = l.id
  detailLink : ∀ d ∈ s.details, ∃ l ∈ s.links,
    l.id = d.id ∧ l.kind = d.key.type.linkKind ∧ l.pinPath.isSome
  detailDispatcher : ∀ d ∈ s.details, ∃ r ∈ s.dispatchers,
    r.key = d.key ∧ r.programID = d.dispatcherProgramID ∧ r.netns = d.netns
  position_le : ∀ d ∈ s.details, d.position ≤ 9
  position_inj : ∀ d ∈ s.details, ∀ d' ∈ s.details, d.key = d'.key →
    d.position = d'.position → d = d'
  codes : ∀ d ∈ s.details, ∃ m, proceedOnActions d.key.type m = .ok d.proceedOn ∧
    ∀ b, m.testBit b = true → b < 32
  detailed : ∀ l ∈ s.links, l.Detailed

theorem linkKind_dispatcher (t : DispatcherType) : t.linkKind = .xdp ∨ t.linkKind = .tc := by
  cases t <;> simp [DispatcherType.linkKind]

/-- Every dispatcher row has a member. -/
def Inhabited (s : Store) : Prop := ∀ r ∈ s.dispatchers, ∃ d ∈ s.details, d.key = r.key

/-! ## Deleting link rows -/

variable {s s' : Store} {now : Nat} {key : Key} {rt : DispatcherRuntime}

theorem mem_deleteLinks_links {ids : List LinkID} :
    l ∈ (s.deleteLinks ids).links ↔ l ∈ s.links ∧ l.id ∉ ids := by
  simp [deleteLinks]

theorem mem_deleteLinks_details {ids : List LinkID} :
    d ∈ (s.deleteLinks ids).details ↔ d ∈ s.details ∧ d.id ∉ ids := by
  simp [deleteLinks]

theorem mem_attachPointLinks {id : LinkID} :
    id ∈ s.attachPointLinks key ↔ ∃ d ∈ s.details, d.key = key ∧ d.id = id := by
  simp [attachPointLinks, and_assoc]

theorem Consistent.deleteLinks (h : s.Consistent) (ids : List LinkID) :
    (s.deleteLinks ids).Consistent where
  programIDs := h.programIDs
  linkIDs := Table.nodup_filter h.linkIDs _
  detailIDs := Table.nodup_filter h.detailIDs _
  dispatcherKeys := h.dispatcherKeys
  dispatcherIDs := h.dispatcherIDs
  linkProgram l hl := h.linkProgram l (mem_deleteLinks_links.1 hl).1
  linkDetail l hl hk := by
    obtain ⟨hl, hid⟩ := mem_deleteLinks_links.1 hl
    obtain ⟨d, hd, hdl⟩ := h.linkDetail l hl hk
    exact ⟨d, mem_deleteLinks_details.2 ⟨hd, hdl ▸ hid⟩, hdl⟩
  detailLink d hd := by
    obtain ⟨hd, hid⟩ := mem_deleteLinks_details.1 hd
    obtain ⟨l, hl, hld, hk⟩ := h.detailLink d hd
    exact ⟨l, mem_deleteLinks_links.2 ⟨hl, hld ▸ hid⟩, hld, hk⟩
  detailDispatcher d hd := h.detailDispatcher d (mem_deleteLinks_details.1 hd).1
  position_le d hd := h.position_le d (mem_deleteLinks_details.1 hd).1
  position_inj d hd d' hd' :=
    h.position_inj d (mem_deleteLinks_details.1 hd).1 d' (mem_deleteLinks_details.1 hd').1
  codes d hd := h.codes d (mem_deleteLinks_details.1 hd).1
  detailed l hl := h.detailed l (mem_deleteLinks_links.1 hl).1

/-- Deleting the links of an attach point leaves the details of the other attach points. -/
theorem mem_deleteAttachPoint_details (h : s.Consistent) :
    d ∈ (s.deleteLinks (s.attachPointLinks key)).details ↔ d ∈ s.details ∧ d.key ≠ key := by
  rw [mem_deleteLinks_details, mem_attachPointLinks]
  refine and_congr_right fun hd => ?_
  constructor
  · rintro hn rfl
    exact hn ⟨d, hd, rfl, rfl⟩
  · rintro hk ⟨d', hd', hk', hid⟩
    exact hk (Table.eq_of_key h.detailIDs hd' hd hid ▸ hk')

/-! ## The dispatcher row -/

theorem upsertDispatcher_eq_ok {row : DispatcherRow} (h : s.upsertDispatcher row = .ok s') :
    dispatcherRowOK row = true ∧
    (∀ d ∈ s.dispatchers, d.key ≠ row.key → d.programID ≠ row.programID)
      ∧ s' = { s with dispatchers := s.dispatchers.filter (·.key ≠ row.key) ++ [row] } := by
  unfold upsertDispatcher at h
  split at h
  · cases h
  · rename_i hc
    simp only [Except.ok.injEq] at h
    simp only [Bool.or_eq_true, not_or, any_eq_true, not_exists, not_and, Bool.and_eq_true,
      decide_eq_true_eq, Bool.not_eq_true'] at hc
    refine ⟨by simpa using hc.1.1, fun d hd hk => hc.1.2 d hd hk, h.symm⟩

theorem Consistent.upsert (h : s.Consistent) {row : DispatcherRow}
    (hd : ∀ d ∈ s.details, d.key ≠ row.key) (hu : s.upsertDispatcher row = .ok s') :
    s'.Consistent := by
  obtain ⟨-, hid, rfl⟩ := upsertDispatcher_eq_ok hu
  refine { h with dispatcherKeys := ?_, dispatcherIDs := ?_, detailDispatcher := ?_ }
  · refine Table.nodup_concat (Table.nodup_filter h.dispatcherKeys _) fun r hr => ?_
    simpa using (mem_filter.1 hr).2
  · refine Table.nodup_concat (Table.nodup_filter h.dispatcherIDs _) fun r hr => ?_
    obtain ⟨hr, hk⟩ := mem_filter.1 hr
    exact hid r hr (by simpa using hk)
  · intro d hdd
    obtain ⟨r, hr, hk, hrest⟩ := h.detailDispatcher d hdd
    refine ⟨r, mem_append_left _ (mem_filter.2 ⟨hr, ?_⟩), hk, hrest⟩
    simpa [hk] using hd d hdd

/-! ## Inserting members -/

/-- A member as it was inserted: its link id, its stored codes and what was asked for. -/
structure NewMember where
  id : LinkID
  codes : List Int
  spec : DispatcherMemberSpec

/-- The link row of an inserted member. -/
def NewMember.link (now : Nat) (key : Key) (m : NewMember) : LinkRow :=
  memberLinkRow now key m.id m.spec

/-- The detail row of an inserted member. -/
def NewMember.detail (key : Key) (rt : DispatcherRuntime) (m : NewMember) : DetailRow :=
  memberDetailRow key rt m.id m.codes m.spec

theorem insertMember_eq_ok {m : DispatcherMemberSpec} {out : DispatcherMember}
    (h : insertMember now key rt s m = .ok (s', out)) :
    ∃ n : NewMember, n.spec = m ∧ n.id = m.existingLinkID.getD (s.linkSeq + 1) ∧
      proceedOnActions key.type m.proceedOn = .ok n.codes ∧
      linkRowOK s (n.link now key) = true ∧ detailRowOK s (n.detail key rt) = true ∧
      s' = { s with links := s.links ++ [n.link now key], details := s.details ++ [n.detail key rt]
                    linkSeq := max s.linkSeq n.id } ∧
      out = completedMember n.id m := by
  obtain ⟨codes, hc, h⟩ := except_bind_eq_ok.1 h
  dsimp only at h
  split at h
  · rename_i hok
    cases h
    rw [Bool.and_eq_true] at hok
    exact ⟨⟨_, codes, m⟩, rfl, rfl, hc, hok.1, hok.2, rfl, rfl⟩
  · cases h

theorem linkRowOK_iff : linkRowOK s l = true ↔
    (∀ r ∈ s.links, r.id ≠ l.id ∧ (r.kernelLinkID = none ∨ r.kernelLinkID ≠ l.kernelLinkID) ∧
      (r.pinPath = none ∨ r.pinPath ≠ l.pinPath)) ∧
    ∃ p ∈ s.programs, p.programID = l.programID := by
  simp [linkRowOK, and_assoc]

theorem detailRowOK_iff : detailRowOK s d = true ↔
    d.position ≤ 9 ∧
    (∀ r ∈ s.details, r.id ≠ d.id ∧ (r.key = d.key → r.position ≠ d.position)) ∧
    ∃ r ∈ s.dispatchers, r.programID = d.dispatcherProgramID := by
  simp [detailRowOK, and_assoc, imp_iff_not_or]

/-- What the rest of a snapshot write relies on while members are inserted. -/
def HasDispatcher (s : Store) (key : Key) (rt : DispatcherRuntime) : Prop :=
  ∃ r ∈ s.dispatchers, r.key = key ∧ r.programID = rt.programID ∧ r.netns = rt.netnsPath

/-- A member spec the rebuilds write: its link is pinned and its mask fits in 32 bits. -/
def SpecOK (m : DispatcherMemberSpec) : Prop :=
  m.linkPinPath.isSome ∧ ∀ b, m.proceedOn.testBit b = true → b < 32

theorem Consistent.insertMember (h : s.Consistent) (hk : s.HasDispatcher key rt)
    {m : DispatcherMemberSpec} {out : DispatcherMember} (hm : SpecOK m)
    (hi : Store.insertMember now key rt s m = .ok (s', out)) : s'.Consistent := by
  obtain ⟨n, rfl, -, hc, hl, hd, rfl, -⟩ := insertMember_eq_ok hi
  obtain ⟨hl, hp⟩ := linkRowOK_iff.1 hl
  obtain ⟨hpos, hd, -⟩ := detailRowOK_iff.1 hd
  refine ⟨h.programIDs, Table.nodup_concat h.linkIDs fun r hr => (hl r hr).1,
    Table.nodup_concat h.detailIDs fun r hr => (hd r hr).1, h.dispatcherKeys, h.dispatcherIDs,
    ?_, ?_, ?_, ?_, ?_, ?_, ?_, ?_⟩
  · intro l hlm
    rcases mem_append.1 hlm with hlm | hlm
    · exact h.linkProgram l hlm
    · rw [mem_singleton.1 hlm]
      exact hp
  · intro l hlm hkind
    rcases mem_append.1 hlm with hlm | hlm
    · obtain ⟨d, hdm, hdl⟩ := h.linkDetail l hlm hkind
      exact ⟨d, mem_append_left _ hdm, hdl⟩
    · rw [mem_singleton.1 hlm]
      exact ⟨_, mem_append_right _ (mem_singleton.2 rfl), rfl⟩
  · intro d hdm
    rcases mem_append.1 hdm with hdm | hdm
    · obtain ⟨l, hlm, hrest⟩ := h.detailLink d hdm
      exact ⟨l, mem_append_left _ hlm, hrest⟩
    · rw [mem_singleton.1 hdm]
      exact ⟨_, mem_append_right _ (mem_singleton.2 rfl), rfl, rfl, hm.1⟩
  · intro d hdm
    rcases mem_append.1 hdm with hdm | hdm
    · exact h.detailDispatcher d hdm
    · rw [mem_singleton.1 hdm]
      exact hk
  · intro d hdm
    rcases mem_append.1 hdm with hdm | hdm
    · exact h.position_le d hdm
    · rw [mem_singleton.1 hdm]
      exact hpos
  · intro d hdm d' hdm' hkey hp'
    rcases mem_append.1 hdm with hdm | hdm <;> rcases mem_append.1 hdm' with hdm' | hdm'
    · exact h.position_inj d hdm d' hdm' hkey hp'
    · rw [mem_singleton.1 hdm'] at hkey hp'
      exact absurd hp' ((hd d hdm).2 hkey)
    · rw [mem_singleton.1 hdm] at hkey hp'
      exact absurd hp'.symm ((hd d' hdm').2 hkey.symm)
    · rw [mem_singleton.1 hdm, mem_singleton.1 hdm']
  · intro d hdm
    rcases mem_append.1 hdm with hdm | hdm
    · exact h.codes d hdm
    · rw [mem_singleton.1 hdm]
      exact ⟨_, hc, hm.2⟩
  · intro l hlm
    rcases mem_append.1 hlm with hlm | hlm
    · exact h.detailed l hlm
    · rw [mem_singleton.1 hlm]
      exact linkKind_dispatcher key.type

theorem insertMembers_cons {m : DispatcherMemberSpec} {ms : List DispatcherMemberSpec}
    {outs : List DispatcherMember} (h : insertMembers now key rt s (m :: ms) = .ok (s', outs)) :
    ∃ s1 out rest, insertMember now key rt s m = .ok (s1, out) ∧
      insertMembers now key rt s1 ms = .ok (s', rest) ∧ outs = out :: rest := by
  obtain ⟨⟨s1, out⟩, h1, h⟩ := except_bind_eq_ok.1 h
  obtain ⟨⟨s2, rest⟩, h2, h⟩ := except_bind_eq_ok.1 h
  cases h
  exact ⟨s1, out, rest, h1, h2, rfl⟩

theorem insertMembers_spec : ∀ {ms : List DispatcherMemberSpec} {s s' : Store}
    {outs : List DispatcherMember}, insertMembers now key rt s ms = .ok (s', outs) →
    ∃ ns : List NewMember, ns.map (·.spec) = ms ∧
      (∀ n ∈ ns, proceedOnActions key.type n.spec.proceedOn = .ok n.codes ∧
        ∀ id, n.spec.existingLinkID = some id → n.id = id) ∧
      s'.links = s.links ++ ns.map (·.link now key) ∧
      s'.details = s.details ++ ns.map (·.detail key rt) ∧
      s'.programs = s.programs ∧ s'.mapSets = s.mapSets ∧ s'.dispatchers = s.dispatchers ∧
      s'.sharedMapPins = s.sharedMapPins ∧ outs = ns.map fun n => completedMember n.id n.spec
  | [], s, s', outs, h => by
    simp only [insertMembers, Except.ok.injEq, Prod.mk.injEq] at h
    obtain ⟨rfl, rfl⟩ := h
    exact ⟨[], rfl, by simp, by simp, by simp, rfl, rfl, rfl, rfl, rfl⟩
  | m :: ms, s, s', outs, h => by
    obtain ⟨s1, out, rest, h1, h2, rfl⟩ := insertMembers_cons h
    obtain ⟨n, rfl, hid, hc, -, -, rfl, rfl⟩ := insertMember_eq_ok h1
    obtain ⟨ns, rfl, hns, hl, hd, hp, hms, hdisp, hsp, rfl⟩ := insertMembers_spec h2
    refine ⟨n :: ns, rfl, ?_, ?_, ?_, hp, hms, hdisp, hsp, rfl⟩
    · intro n' hn'
      rcases mem_cons.1 hn' with rfl | hn'
      · exact ⟨hc, fun id hid' => by rw [hid, hid']; rfl⟩
      · exact hns n' hn'
    · rw [hl]
      simp
    · rw [hd]
      simp

theorem Consistent.insertMembers : ∀ {ms : List DispatcherMemberSpec} {s s' : Store}
    {outs : List DispatcherMember}, s.Consistent → s.HasDispatcher key rt →
    (∀ m ∈ ms, SpecOK m) → Store.insertMembers now key rt s ms = .ok (s', outs) → s'.Consistent
  | [], s, s', outs, h, _, _, hi => by
    simp only [Store.insertMembers, Except.ok.injEq, Prod.mk.injEq] at hi
    exact hi.1 ▸ h
  | m :: ms, s, s', outs, h, hk, hm, hi => by
    obtain ⟨s1, out, rest, h1, h2, -⟩ := insertMembers_cons hi
    have hs1 := h.insertMember hk (hm m (mem_cons_self ..)) h1
    obtain ⟨n, -, -, -, -, -, rfl, -⟩ := insertMember_eq_ok h1
    exact Consistent.insertMembers hs1 hk (fun m' hm' => hm m' (mem_cons_of_mem _ hm')) h2

/-! ## Writing a snapshot -/

variable {spec : DispatcherSnapshotSpec} {snap : DispatcherSnapshot}

theorem replace_eq_ok (h : s.replaceDispatcherSnapshot now spec = .ok (s', snap)) :
    ∃ s2 outs, (s.deleteLinks (s.attachPointLinks spec.key)).upsertDispatcher (dispatcherRow spec) =
        .ok s2 ∧ insertMembers now spec.key spec.runtime s2 spec.members = .ok (s', outs) ∧
      snap = ⟨spec.key, spec.revision, spec.runtime, outs⟩ := by
  obtain ⟨s2, h2, h⟩ := except_bind_eq_ok.1 h
  obtain ⟨⟨s3, outs⟩, h3, h⟩ := except_bind_eq_ok.1 h
  cases h
  exact ⟨s2, outs, h2, h3, rfl⟩

/-- **The store after a snapshot write**: the rows of the attach point are those of the members
asked for, in order, and the rows of every other attach point are as they were. -/
theorem replace_spec (h : s.replaceDispatcherSnapshot now spec = .ok (s', snap)) :
    ∃ ns : List NewMember, ns.map (·.spec) = spec.members ∧
      (∀ n ∈ ns, proceedOnActions spec.key.type n.spec.proceedOn = .ok n.codes ∧
        ∀ id, n.spec.existingLinkID = some id → n.id = id) ∧
      s'.links = s.links.filter (·.id ∉ s.attachPointLinks spec.key) ++
        ns.map (·.link now spec.key) ∧
      s'.details = s.details.filter (·.id ∉ s.attachPointLinks spec.key) ++
        ns.map (·.detail spec.key spec.runtime) ∧
      s'.dispatchers = s.dispatchers.filter (·.key ≠ spec.key) ++ [dispatcherRow spec] ∧
      s'.programs = s.programs ∧ s'.mapSets = s.mapSets ∧ s'.sharedMapPins = s.sharedMapPins ∧
      dispatcherRowOK (dispatcherRow spec) = true ∧
      snap = ⟨spec.key, spec.revision, spec.runtime,
        ns.map fun n => completedMember n.id n.spec⟩ := by
  obtain ⟨s2, outs, hu, hi, rfl⟩ := replace_eq_ok h
  obtain ⟨hrow, -, rfl⟩ := upsertDispatcher_eq_ok hu
  obtain ⟨ns, hns, hok, hl, hd, hp, hms, hdisp, hsp, rfl⟩ := insertMembers_spec hi
  exact ⟨ns, hns, hok, hl, hd, hdisp, hp, hms, hsp, hrow, rfl⟩

theorem consistent_replace (hs : s.Consistent) (hm : ∀ m ∈ spec.members, SpecOK m)
    (h : s.replaceDispatcherSnapshot now spec = .ok (s', snap)) : s'.Consistent := by
  obtain ⟨s2, outs, hu, hi, -⟩ := replace_eq_ok h
  have hdel := hs.deleteLinks (s.attachPointLinks spec.key)
  have hs2 := hdel.upsert (fun d hd => ((mem_deleteAttachPoint_details hs).1 hd).2) hu
  obtain ⟨-, -, rfl⟩ := upsertDispatcher_eq_ok hu
  exact hs2.insertMembers ⟨dispatcherRow spec, by simp, rfl, rfl, rfl⟩ hm hi

/-! ## Deleting a snapshot -/

theorem deleteDispatcherSnapshot_eq_ok (h : s.deleteDispatcherSnapshot key = .ok s') :
    s' = { s.deleteLinks (s.attachPointLinks key) with
           dispatchers := s.dispatchers.filter (·.key ≠ key) } := by
  unfold deleteDispatcherSnapshot at h
  by_cases hr : (s.deleteLinks (s.attachPointLinks key)).dispatcherReferenced key = true
  · simp [hr] at h
  · rw [if_neg hr] at h
    split at h
    · exact (Except.ok.inj h).symm
    · cases h

theorem consistent_deleteSnapshot (hs : s.Consistent)
    (h : s.deleteDispatcherSnapshot key = .ok s') : s'.Consistent := by
  have hdel := hs.deleteLinks (s.attachPointLinks key)
  rw [deleteDispatcherSnapshot_eq_ok h]
  refine { hdel with
    dispatcherKeys := Table.nodup_filter hs.dispatcherKeys _
    dispatcherIDs := Table.nodup_filter hs.dispatcherIDs _
    detailDispatcher := fun d hd => ?_ }
  obtain ⟨hd, hk⟩ := (mem_deleteAttachPoint_details hs).1 hd
  obtain ⟨r, hr, hrk, hrest⟩ := hs.detailDispatcher d hd
  exact ⟨r, mem_filter.2 ⟨hr, by simpa [hrk] using hk⟩, hrk, hrest⟩

end Store

end Bpfman
