import Bpfman.StoreProof

/-!
# The store: what a read returns

In a consistent store the joins of the read queries find exactly one partner, so a member of a
snapshot and a link record are determined by the rows of the link.

* `mem_memberRows` — the rows of the member query of an attach point;
* `getDispatcherSnapshot_eq_ok` — a snapshot read, member by member;
* `getLink_eq_ok` — a link record and the rows it is read from.
-/

namespace Bpfman

open List Fallible.Proc

variable {d : DetailRow} {row : MemberRow} {ord : RowOrder} {record : ProgramRecord} {l : LinkRow}
  {k : Key}

namespace Store

variable {s : Store} {key : Key} {snap : DispatcherSnapshot}

/-! ## The member query -/

/-- A member row of the store: a detail row with its link and program. -/
structure IsMemberRow (s : Store) (row : MemberRow) : Prop where
  detail : row.detail ∈ s.details
  link : row.link ∈ s.links
  program : row.program ∈ s.programs
  link_id : row.link.id = row.detail.id
  program_id : row.program.programID = row.link.programID

theorem memberRow_eq_some (h : s.Consistent) (hd : d ∈ s.details) : s.memberRow d = some row ↔
    row.detail = d ∧ s.IsMemberRow row := by
  obtain ⟨l, hl, hld, -⟩ := h.detailLink d hd
  obtain ⟨p, hp, hpl⟩ := h.linkProgram l hl
  have hfl : s.links.find? (fun x => decide (x.id = d.id)) = some l :=
    Table.find_of_mem h.linkIDs hl hld
  have hfp : s.programs.find? (fun x => decide (x.programID = l.programID)) = some p :=
    Table.find_of_mem h.programIDs hp hpl
  have hrow : s.memberRow d = some ⟨d, l, p⟩ := by
    simp [memberRow, hfl, hfp]
  rw [hrow, Option.some.injEq]
  constructor
  · rintro rfl
    exact ⟨rfl, hd, hl, hp, hld, hpl⟩
  · rintro ⟨rfl, hm⟩
    have h1 : l = row.link := Table.eq_of_key h.linkIDs hl hm.link (hld.trans hm.link_id.symm)
    subst h1
    have h2 : p = row.program :=
      Table.eq_of_key h.programIDs hp hm.program (hpl.trans hm.program_id.symm)
    subst h2
    rfl

theorem mem_memberRows (h : s.Consistent) :
    row ∈ s.memberRows key ↔ s.IsMemberRow row ∧ row.detail.key = key := by
  unfold memberRows
  simp only [mem_filterMap, mem_filter, decide_eq_true_eq]
  constructor
  · rintro ⟨d, ⟨hd, hk⟩, hrow⟩
    obtain ⟨rfl, hm⟩ := (memberRow_eq_some h hd).1 hrow
    exact ⟨hm, hk⟩
  · rintro ⟨hm, hk⟩
    exact ⟨row.detail, ⟨hm.detail, hk⟩, (memberRow_eq_some h hm.detail).2 ⟨rfl, hm⟩⟩

theorem exists_memberRow (h : s.Consistent) (hd : d ∈ s.details) :
    ∃ row, s.IsMemberRow row ∧ row.detail = d := by
  obtain ⟨l, hl, hld, -⟩ := h.detailLink d hd
  obtain ⟨p, hp, hpl⟩ := h.linkProgram l hl
  exact ⟨⟨d, l, p⟩, ⟨hd, hl, hp, hld, hpl⟩, rfl⟩

/-- The details of the member rows of an attach point are its detail rows, in order. -/
theorem memberRows_map_detail (h : s.Consistent) :
    (s.memberRows key).map (·.detail) = s.details.filter (·.key = key) := by
  have hsub : ∀ ds : List DetailRow, (∀ d ∈ ds, d ∈ s.details) →
      (ds.filterMap s.memberRow).map (·.detail) = ds := by
    intro ds
    induction ds with
    | nil => intro _; rfl
    | cons d ds ih =>
      intro hds
      obtain ⟨row, hm, rfl⟩ := exists_memberRow h (hds d (mem_cons_self ..))
      rw [filterMap_cons_some ((memberRow_eq_some h hm.detail).2 ⟨rfl, hm⟩), map_cons,
        ih fun d hd => hds d (mem_cons_of_mem _ hd)]
  exact hsub _ fun d hd => (mem_filter.1 hd).1

/-- At most ten members fit at an attach point, because their positions differ. -/
theorem length_memberRows_le (h : s.Consistent) : (s.memberRows key).length ≤ 10 := by
  have hlen : (s.memberRows key).length = (s.details.filter (·.key = key)).length := by
    rw [← memberRows_map_detail h, length_map]
  have hnd : ((s.details.filter (·.key = key)).map (·.position)).Nodup := by
    refine List.Nodup.map_on ?_ (List.Nodup.filter _ (List.Nodup.of_map _ h.detailIDs))
    intro d hd d' hd' hp
    obtain ⟨hd, hk⟩ := mem_filter.1 hd
    obtain ⟨hd', hk'⟩ := mem_filter.1 hd'
    refine h.position_inj d hd d' hd' ?_ hp
    rw [of_decide_eq_true hk, of_decide_eq_true hk']
  have hsub : (s.details.filter (·.key = key)).map (·.position) ⊆ range 10 := by
    intro x hx
    obtain ⟨d, hd, rfl⟩ := mem_map.1 hx
    exact mem_range.2 (Nat.lt_succ_of_le (h.position_le d (mem_filter.1 hd).1))
  have hle := (hnd.subperm hsub).length_le
  rw [length_map, length_range] at hle
  omega

/-! ## Decoding members -/

theorem mapM_eq_ok {α β ε : Type} {f : α → Except ε β} : ∀ {l : List α} {l' : List β},
    l.mapM f = .ok l' ↔ List.Forall₂ (fun a b => f a = .ok b) l l'
  | [], l' => by
    simp only [mapM_nil, pure, Except.pure, Except.ok.injEq, forall₂_nil_left_iff]
    exact eq_comm
  | a :: l, l' => by
    rw [mapM_cons, except_bind_eq_ok, forall₂_cons_left_iff]
    refine exists_congr fun b => ?_
    rw [except_bind_eq_ok, ← exists_and_left]
    refine exists_congr fun bs => and_congr_right fun _ => and_congr mapM_eq_ok ?_
    exact (Except.ok.injEq ..).to_iff.trans eq_comm

/-- A member as decoded from its row. -/
structure Decodes (row : MemberRow) (m : DispatcherMember) : Prop where
  mask : proceedOnMask row.detail.key.type row.detail.proceedOn = .ok m.proceedOn
  programID : m.programID = row.link.programID
  programName : m.programName = row.program.programName
  progPinPath : m.progPinPath = row.program.pinPath
  linkID : m.linkID = row.link.id
  kernelLinkID : m.kernelLinkID = row.link.kernelLinkID
  linkPinPath : m.linkPinPath = row.link.pinPath
  position : m.position = row.detail.position
  priority : m.priority = row.detail.priority
  ifname : m.ifname = row.detail.ifname
  metadata : m.metadata = row.link.metadata

theorem decodeMember_eq_ok {m : DispatcherMember} (h : decodeMember row = .ok m) :
    Decodes row m := by
  obtain ⟨mask, hm, h⟩ := except_bind_eq_ok.1 h
  cases h
  exact ⟨hm, rfl, rfl, rfl, rfl, rfl, rfl, rfl, rfl, rfl, rfl⟩

theorem decodeMember_isOk (h : s.Consistent) (hrow : s.IsMemberRow row) :
    ∃ m, decodeMember row = .ok m := by
  obtain ⟨mask, hm, hb⟩ := h.codes row.detail hrow.detail
  have hmask := proceedOnMask_actions hb hm
  simp [decodeMember, hmask, bind, Except.bind]

/-- **A snapshot read**: the dispatcher row, and the members decoded from the rows in the order the
database returned them. -/
theorem getDispatcherSnapshot_eq_ok (h : s.getDispatcherSnapshot ord key = .ok snap) :
    ∃ r ∈ s.dispatchers, r.key = key ∧ snap.key = key ∧ snap.revision = r.revision ∧
      snap.runtime = dispatcherRuntime r ∧
      List.Forall₂ Decodes (ord.order (s.memberRows key)) snap.members := by
  unfold getDispatcherSnapshot at h
  cases hr : s.dispatchers.find? (fun x => decide (x.key = key)) with
  | none => simp [hr] at h
  | some r =>
    obtain ⟨hrm, hrk⟩ := Table.mem_of_find hr
    simp only [hr] at h
    obtain ⟨ms, hm, h⟩ := except_bind_eq_ok.1 h
    cases h
    exact ⟨r, hrm, hrk, rfl, rfl, rfl, (mapM_eq_ok.1 hm).imp fun _ _ => decodeMember_eq_ok⟩

theorem getDispatcherSnapshot_isOk (h : s.Consistent) (ord : RowOrder)
    (hr : ∃ r ∈ s.dispatchers, r.key = key) :
    ∃ snap, s.getDispatcherSnapshot ord key = .ok snap := by
  obtain ⟨r, hrm, hrk⟩ := hr
  have hfind : s.dispatchers.find? (fun x => decide (x.key = key)) = some r :=
    Table.find_of_mem h.dispatcherKeys hrm hrk
  have hrows : ∀ rows : List MemberRow, (∀ row ∈ rows, s.IsMemberRow row) →
      ∃ ms, rows.mapM decodeMember = .ok ms := by
    intro rows
    induction rows with
    | nil => exact fun _ => ⟨[], rfl⟩
    | cons row rows ih =>
      intro hrows
      obtain ⟨m, hm⟩ := decodeMember_isOk h (hrows row (mem_cons_self ..))
      obtain ⟨ms, hms⟩ := ih fun r hr => hrows r (mem_cons_of_mem _ hr)
      exact ⟨m :: ms, mapM_eq_ok.2 (.cons hm (mapM_eq_ok.1 hms))⟩
  obtain ⟨ms, hms⟩ := hrows (ord.order (s.memberRows key)) fun row hrow =>
    ((mem_memberRows h).1 ((ord.perm _).mem_iff.1 hrow)).1
  simp [getDispatcherSnapshot, hfind, hms, bind, Except.bind]

theorem mem_order {rows : List MemberRow} :
    row ∈ ord.order rows ↔ row ∈ rows := (ord.perm rows).mem_iff

/-- Every member of a snapshot is decoded from a row. -/
theorem exists_row_of_member (h : s.getDispatcherSnapshot ord key = .ok snap) {m : DispatcherMember}
    (hm : m ∈ snap.members) : ∃ row ∈ s.memberRows key, Decodes row m := by
  obtain ⟨-, -, -, -, -, -, hall⟩ := getDispatcherSnapshot_eq_ok h
  obtain ⟨i, hi⟩ := mem_iff_getElem?.1 hm
  obtain ⟨row, hrow, hdec⟩ := Table.exists_left hall hi
  exact ⟨row, mem_order.1 (mem_of_getElem? hrow), hdec⟩

/-- Every row of an attach point is decoded to a member of its snapshot. -/
theorem exists_member_of_row (h : s.getDispatcherSnapshot ord key = .ok snap)
    (hrow : row ∈ s.memberRows key) : ∃ m ∈ snap.members, Decodes row m := by
  obtain ⟨-, -, -, -, -, -, hall⟩ := getDispatcherSnapshot_eq_ok h
  obtain ⟨i, hi⟩ := mem_iff_getElem?.1 (mem_order.2 hrow)
  obtain ⟨m, hm, hdec⟩ := Table.exists_right hall hi
  exact ⟨m, mem_of_getElem? hm, hdec⟩

/-! ## Program records -/

theorem programRecord_eq_some {p : ProgramRow}
    (h : s.programRecord p = some record) : ∃ ms ∈ s.mapSets, ms.id = p.mapSetID ∧
      record = { programID := p.programID, name := p.programName, programType := p.programType
                 pinPath := p.pinPath, mapsDir := ms.pinPath
                 mapOwnerID := if p.mapSetID = p.programID then none else some p.mapSetID
                 attachFunc := p.attachFunc } := by
  obtain ⟨ms, hms, rfl⟩ := Option.map_eq_some_iff.1 h
  obtain ⟨hmem, hid⟩ := Table.mem_of_find hms
  exact ⟨ms, hmem, hid, rfl⟩

theorem getProgram_rows {id : ProgramID} (h : s.getProgram id = .ok record) :
    ∃ p ∈ s.programs, p.programID = id ∧ s.programRecord p = some record := by
  unfold getProgram at h
  split at h
  · rename_i r hr
    obtain ⟨p, hp, hrec⟩ := Option.bind_eq_some_iff.1 hr
    obtain ⟨hpm, hid⟩ := Table.mem_of_find hp
    cases h
    exact ⟨p, hpm, hid, hrec⟩
  · cases h

theorem getProgram_eq_ok {id : ProgramID}
    (h : s.getProgram id = .ok record) : ∃ p ∈ s.programs, p.programID = id ∧
      record.programID = id ∧ record.name = p.programName ∧ record.pinPath = p.pinPath := by
  obtain ⟨p, hp, hid, hrec⟩ := getProgram_rows h
  obtain ⟨ms, -, -, rfl⟩ := programRecord_eq_some hrec
  exact ⟨p, hp, hid, hid, rfl, rfl⟩

/-! ## Link records -/

/-- The rows of a dispatcher-backed link record. -/
structure IsLinkRow (s : Store) (l : LinkRow) (d : DetailRow) (r : DispatcherRow) : Prop where
  link : l ∈ s.links
  detail : d ∈ s.details
  dispatcher : r ∈ s.dispatchers
  detail_id : d.id = l.id
  kind : l.kind = d.key.type.linkKind
  programID : r.programID = d.dispatcherProgramID
  scans : priorityScans d = true

/-- The details of a dispatcher-backed link: its detail row joined with the dispatcher row, if the
priority scans. -/
theorem getLinkDetails_of_row (h : s.Consistent) {r : DispatcherRow}
    (hd : d ∈ s.details) (hr : r ∈ s.dispatchers) (hid : r.programID = d.dispatcherProgramID) :
    s.getLinkDetails d.key.type.linkKind d.id =
      if priorityScans d then .ok (linkDetails d r) else .error (.msg "value out of range") := by
  have hfd : s.details.find? (fun x => decide (x.id = d.id ∧
      x.key.type.linkKind = d.key.type.linkKind)) = some d := by
    refine find?_eq_some_iff_append.2 ⟨by simp, ?_⟩
    obtain ⟨as, bs, hab⟩ := append_of_mem hd
    refine ⟨as, bs, hab, fun a ha => ?_⟩
    have hn := h.detailIDs
    rw [hab, map_append, map_cons] at hn
    have hne := disjoint_of_nodup_append hn
    have : a.id ≠ d.id := fun hid => hne (mem_map_of_mem ha) (by simp [hid])
    simp [this]
  have hfr : s.dispatchers.find? (fun x => decide (x.programID = d.dispatcherProgramID)) =
      some r := Table.find_of_mem h.dispatcherIDs hr hid
  have hjoin : s.joinDispatcher d = some (linkDetails d r) := by
    simp [joinDispatcher, hfr]
  unfold getLinkDetails
  rw [hfd]
  simp only [hjoin]

theorem getStandaloneDetails_eq_ok {details : LinkDetails} :
    s.getStandaloneDetails l = .ok details ↔
      (∃ d, l.standalone = some (.probe d) ∧ (StandaloneRow.probe d).serves l.kind = true ∧
        details = .probe d) ∨
      ∃ r, l.standalone = some (.tcx r) ∧ (StandaloneRow.tcx r).serves l.kind = true ∧
        int32Scans r.priority = true ∧ details = .tcx (s.tcxDetails l.id r) := by
  unfold getStandaloneDetails
  cases hrow : l.standalone with
  | none => simp
  | some row =>
    cases row with
    | probe d =>
      by_cases hk : (StandaloneRow.probe d).serves l.kind = true
      · simp only [hk, if_true, Except.ok.injEq]
        constructor
        · rintro rfl
          exact .inl ⟨d, rfl, hk, rfl⟩
        · rintro (⟨d', hd, -, rfl⟩ | ⟨r, hr, -⟩)
          · cases hd
            rfl
          · cases hr
      · simp [hk]
    | tcx r =>
      by_cases hk : (StandaloneRow.tcx r).serves l.kind = true
      · by_cases hp : int32Scans r.priority = true
        · simp only [hk, hp, if_true, Except.ok.injEq]
          constructor
          · rintro rfl
            exact .inr ⟨r, rfl, hk, hp, rfl⟩
          · rintro (⟨d, hd, -⟩ | ⟨r', hr, -, -, rfl⟩)
            · cases hd
            · cases hr
              rfl
        · simp [hk, hp]
      · simp [hk]

theorem mem_tcxRows {t : LinkID × TCXRow} :
    t ∈ s.tcxRows ↔ ∃ l ∈ s.links, l.id = t.1 ∧ l.standalone = some (.tcx t.2) := by
  unfold tcxRows
  rw [mem_filterMap]
  refine exists_congr fun l => and_congr_right fun _ => ?_
  cases l.standalone with
  | none => simp
  | some row => cases row <;> simp [Prod.ext_iff]

theorem exists_linkRow (h : s.Consistent) (hl : l ∈ s.links)
    (hk : l.kind = .xdp ∨ l.kind = .tc) : ∃ d ∈ s.details, ∃ r ∈ s.dispatchers,
      d.id = l.id ∧ l.kind = d.key.type.linkKind ∧ r.programID = d.dispatcherProgramID := by
  obtain ⟨d, hd, hdl⟩ := h.linkDetail l hl hk
  obtain ⟨l', hl', hld', hkind, -⟩ := h.detailLink d hd
  obtain rfl := Table.eq_of_key h.linkIDs hl' hl (hld'.trans hdl)
  obtain ⟨r, hr, -, hrid, -⟩ := h.detailDispatcher d hd
  exact ⟨d, hd, r, hr, hdl, hkind, hrid⟩

/-- The details that a read gives a link. -/
def readDetails (s : Store) (l : LinkRow) : Except Err LinkDetails :=
  if l.kind = .xdp ∨ l.kind = .tc then s.getLinkDetails l.kind l.id else s.getStandaloneDetails l

theorem getLink_of_find {id : LinkID} (hl : s.links.find? (fun x => decide (x.id = id)) = some l) :
    s.getLink id = s.readDetails l >>= fun details => .ok (linkRecord l (some details)) := by
  unfold getLink readDetails
  rw [hl]
  dsimp only
  split <;> rfl

theorem getLink_rows (h : s.Consistent) {id : LinkID} {record : LinkRecord} :
    s.getLink id = .ok record ↔ ∃ l ∈ s.links, l.id = id ∧
      ∃ details, s.readDetails l = .ok details ∧ record = linkRecord l (some details) := by
  cases hl : s.links.find? (fun x => decide (x.id = id)) with
  | none =>
    refine iff_of_false (by simp [getLink, hl]) ?_
    rintro ⟨l, hlm, hid, -⟩
    simpa [hid] using find?_eq_none.1 hl l hlm
  | some l =>
    obtain ⟨hlm, hlid⟩ := Table.mem_of_find hl
    rw [getLink_of_find hl, except_bind_eq_ok]
    constructor
    · rintro ⟨details, hd, heq⟩
      exact ⟨l, hlm, hlid, details, hd, (Except.ok.inj heq).symm⟩
    · rintro ⟨l', hl', hid, details, hd, rfl⟩
      obtain rfl := Table.eq_of_key h.linkIDs hl' hlm (hid.trans hlid.symm)
      exact ⟨details, hd, rfl⟩

theorem readDetails_member (h : s.Consistent) (hl : l ∈ s.links) (hk : l.kind = .xdp ∨ l.kind = .tc)
    {details : LinkDetails} :
    s.readDetails l = .ok details ↔ ∃ d r, s.IsLinkRow l d r ∧ details = linkDetails d r := by
  obtain ⟨d, hd, r, hr, hdl, hkind, hrid⟩ := exists_linkRow h hl hk
  unfold readDetails
  rw [if_pos hk, hkind, ← hdl, getLinkDetails_of_row h hd hr hrid]
  constructor
  · intro hread
    split_ifs at hread with hp
    exact ⟨d, r, ⟨hl, hd, hr, hdl, hkind, hrid, hp⟩, (Except.ok.inj hread).symm⟩
  · rintro ⟨d1, r1, hr1, rfl⟩
    obtain rfl := Table.eq_of_key h.detailIDs hr1.detail hd (hr1.detail_id.trans hdl.symm)
    obtain rfl := Table.eq_of_key h.dispatcherIDs hr1.dispatcher hr (hr1.programID.trans hrid.symm)
    exact if_pos hr1.scans

/-- **A link record** is read from its link row, for a dispatcher-backed kind from its detail row
and the dispatcher row that references, and for the others from the detail row of its own. -/
theorem getLink_eq_ok (h : s.Consistent) {id : LinkID} {record : LinkRecord} :
    s.getLink id = .ok record ↔
      (∃ l ∈ s.links, l.id = id ∧ ¬ (l.kind = .xdp ∨ l.kind = .tc) ∧
        ∃ details, s.getStandaloneDetails l = .ok details ∧ record = linkRecord l (some details)) ∨
      (∃ l d r, s.IsLinkRow l d r ∧ l.id = id ∧
        record = linkRecord l (some (linkDetails d r))) := by
  rw [getLink_rows h]
  constructor
  · rintro ⟨l, hl, hid, details, hd, rfl⟩
    by_cases hk : l.kind = .xdp ∨ l.kind = .tc
    · obtain ⟨d, r, hr, rfl⟩ := (readDetails_member h hl hk).1 hd
      exact .inr ⟨l, d, r, hr, hid, rfl⟩
    · rw [readDetails, if_neg hk] at hd
      exact .inl ⟨l, hl, hid, hk, details, hd, rfl⟩
  · rintro (⟨l, hl, hid, hk, details, hd, rfl⟩ | ⟨l, d, r, hr, hid, rfl⟩)
    · exact ⟨l, hl, hid, details, (if_neg hk).trans hd, rfl⟩
    · have hk : l.kind = .xdp ∨ l.kind = .tc := hr.kind ▸ linkKind_dispatcher _
      exact ⟨l, hr.link, hid, _, (readDetails_member h hr.link hk).2 ⟨d, r, hr, rfl⟩, rfl⟩

/-- A link with a row is found, whether or not its details scan. -/
theorem isNotFound_getLink (h : s.Consistent) (hl : l ∈ s.links) {err : Err}
    (herr : s.getLink l.id = .error err) : isNotFound err = false := by
  rw [getLink_of_find (Table.find_of_mem h.linkIDs hl rfl)] at herr
  have hread : s.readDetails l = .error err := by
    cases hd : s.readDetails l <;> simp_all [bind, Except.bind]
  unfold readDetails at hread
  split_ifs at hread with hk
  · obtain ⟨d, hd, r, hr, hdl, hkind, hrid⟩ := exists_linkRow h hl hk
    rw [hkind, ← hdl, getLinkDetails_of_row h hd hr hrid] at hread
    split_ifs at hread
    cases hread
    rfl
  · obtain ⟨row, hrow, hserves⟩ := (h.detailed l hl).some hk
    simp only [getStandaloneDetails, hrow, hserves, if_true] at hread
    cases row with
    | probe d => cases hread
    | tcx r =>
      dsimp only at hread
      split_ifs at hread
      cases hread
      rfl

/-! ## Writes at another attach point -/

/-- The two stores agree on the rows of attach point `key`. -/
structure SameAt (key : Key) (s s' : Store) : Prop where
  programs : s'.programs = s.programs
  details : s'.details.filter (·.key = key) = s.details.filter (·.key = key)
  links : ∀ d ∈ s.details, d.key = key → ∀ l ∈ s.links, l.id = d.id → l ∈ s'.links
  dispatchers : ∀ r, r.key = key → (r ∈ s'.dispatchers ↔ r ∈ s.dispatchers)

variable {s' : Store} {now : Nat} {spec : DispatcherSnapshotSpec} {snap : DispatcherSnapshot}

theorem SameAt.detail (h : SameAt key s s') (hk : d.key = key) :
    d ∈ s'.details ↔ d ∈ s.details := by
  have : d ∈ s'.details.filter (·.key = key) ↔ d ∈ s.details.filter (·.key = key) := by
    rw [h.details]
  simpa [hk] using this

theorem SameAt.refl (s : Store) (key : Key) : SameAt key s s :=
  ⟨rfl, rfl, fun _ _ _ _ hl _ => hl, fun _ _ => Iff.rfl⟩

theorem SameAt.trans {s1 s2 s3 : Store} (h : SameAt key s1 s2) (h' : SameAt key s2 s3) :
    SameAt key s1 s3 := by
  refine ⟨h'.programs.trans h.programs, h'.details.trans h.details, ?_,
    fun r hr => (h'.dispatchers r hr).trans (h.dispatchers r hr)⟩
  intro d hd hk l hl hid
  exact h'.links d ((h.detail hk).2 hd) hk l (h.links d hd hk l hl hid) hid

theorem SameAt.isMemberRow (h : SameAt key s s') (hk : row.detail.key = key)
    (hrow : s.IsMemberRow row) : s'.IsMemberRow row :=
  ⟨(h.detail hk).2 hrow.detail, h.links _ hrow.detail hk _ hrow.link hrow.link_id,
    h.programs ▸ hrow.program, hrow.link_id, hrow.program_id⟩

theorem SameAt.memberRows_eq (hs : s.Consistent) (hs' : s'.Consistent) (h : SameAt key s s') :
    s'.memberRows key = s.memberRows key := by
  unfold memberRows
  rw [h.details]
  refine filterMap_congr fun d hd => ?_
  obtain ⟨hd, hk⟩ := mem_filter.1 hd
  obtain ⟨row, hrow, rfl⟩ := exists_memberRow hs hd
  rw [(memberRow_eq_some hs hd).2 ⟨rfl, hrow⟩]
  have hk : row.detail.key = key := by simpa using hk
  exact (memberRow_eq_some hs' ((h.detail hk).2 hd)).2 ⟨rfl, h.isMemberRow hk hrow⟩

theorem not_mem_attachPointLinks (hs : s.Consistent) (hd : d ∈ s.details) (hk : d.key ≠ k) :
    d.id ∉ s.attachPointLinks k := by
  rw [mem_attachPointLinks]
  rintro ⟨d', hd', hk', hid⟩
  exact hk (Table.eq_of_key hs.detailIDs hd' hd hid ▸ hk')

theorem filter_deleteLinks (hs : s.Consistent) (hk : key ≠ k) :
    (s.details.filter (·.id ∉ s.attachPointLinks k)).filter (·.key = key) =
      s.details.filter (·.key = key) := by
  rw [filter_filter]
  refine filter_congr fun d hd => ?_
  by_cases hdk : d.key = key
  · have := not_mem_attachPointLinks hs hd (hdk ▸ hk)
    simp [hdk, this]
  · simp [hdk]

theorem filter_deleteLinks_self (s : Store) (key : Key) :
    (s.details.filter (·.id ∉ s.attachPointLinks key)).filter (·.key = key) = [] := by
  rw [filter_filter, filter_eq_nil_iff]
  intro d hd
  simp only [Bool.and_eq_true, decide_eq_true_eq, not_and]
  intro hk hn
  exact hn (mem_attachPointLinks.2 ⟨d, hd, hk, rfl⟩)

/-- The detail rows of an attach point after a snapshot write are those of the new members. -/
theorem filter_replaced (s : Store) (key : Key) (rt : DispatcherRuntime) (ns : List NewMember) :
    (s.details.filter (·.id ∉ s.attachPointLinks key) ++ ns.map (·.detail key rt)).filter
      (·.key = key) = ns.map (·.detail key rt) := by
  have hnew : (ns.map (·.detail key rt)).filter (·.key = key) = ns.map (·.detail key rt) := by
    refine filter_eq_self.2 fun d hdm => ?_
    obtain ⟨n, -, rfl⟩ := mem_map.1 hdm
    exact decide_eq_true rfl
  rw [filter_append, filter_deleteLinks_self, hnew, nil_append]

theorem sameAt_replace (hs : s.Consistent)
    (h : s.replaceDispatcherSnapshot now spec = .ok (s', snap)) (hk : key ≠ spec.key) :
    SameAt key s s' := by
  obtain ⟨ns, -, -, hl, hd, hdisp, hp, -, -, -, -⟩ := replace_spec h
  refine ⟨hp, ?_, ?_, ?_⟩
  · rw [hd, filter_append, filter_deleteLinks hs hk]
    have : (ns.map (·.detail spec.key spec.runtime)).filter (·.key = key) = [] := by
      rw [filter_eq_nil_iff]
      intro d hdm
      obtain ⟨n, -, rfl⟩ := mem_map.1 hdm
      exact fun h => hk (of_decide_eq_true h).symm
    rw [this, append_nil]
  · intro d hdm hdk l hlm hid
    rw [hl]
    refine mem_append_left _ (mem_filter.2 ⟨hlm, ?_⟩)
    have := not_mem_attachPointLinks hs hdm (hdk ▸ hk)
    simpa [hid] using this
  · intro r hr
    rw [hdisp, mem_append, mem_filter, mem_singleton]
    have hne : r ≠ dispatcherRow spec := by
      rintro rfl
      exact hk hr.symm
    simp [hr, hk, hne]

theorem sameAt_deleteSnapshot (hs : s.Consistent)
    (h : s.deleteDispatcherSnapshot k = .ok s') (hk : key ≠ k) : SameAt key s s' := by
  rw [deleteDispatcherSnapshot_eq_ok h]
  refine ⟨rfl, filter_deleteLinks hs hk, ?_, ?_⟩
  · intro d hdm hdk l hlm hid
    refine mem_filter.2 ⟨hlm, ?_⟩
    have := not_mem_attachPointLinks hs hdm (hdk ▸ hk)
    simpa [hid] using this
  · intro r hr
    simp [mem_filter, hr, hk]

end Store

end Bpfman
