import Bpfman.Inspect
import Bpfman.Catalogue

/-!
# What a snapshot lists

* `mapSetMembers_eq` — the members of a map set, by the program list and by the store's own query;
* `snapshot_lists_each` — every program and link is listed once, with the sources that have it;
* `snapshot_determined_iff` — the lists do not depend on the order of the maps as long as the kernel
  holds at most one link the store does not record;
* `revision_facts_iff` — a dispatcher is shown with the facts of its own revision directory as long
  as that is the one the scan meets last, or one like it.
-/

namespace Bpfman.Inspect

open List

variable {α κ : Type} {o : Observed}

/-! ## Maps and sorts -/

section Maps

variable [DecidableEq κ] {key : α → κ} {l : List α}

theorem nodup_index (key : α → κ) (l : List α) : ((index key l).map key).Nodup :=
  pairwise_map.2 (pairwise_pwFilter l)

theorem mem_of_mem_index {x : α} (h : x ∈ index key l) : x ∈ l := pwFilter_subset l h

theorem exists_mem_index {k : κ} : (∃ x ∈ index key l, key x = k) ↔ ∃ x ∈ l, key x = k := by
  constructor
  · rintro ⟨x, hx, rfl⟩
    exact ⟨x, mem_of_mem_index hx, rfl⟩
  · rintro ⟨x, hx, rfl⟩
    by_contra hno
    have hne : ∀ y ∈ index key l, key x ≠ key y := fun y hy heq => hno ⟨y, hy, heq.symm⟩
    refine (forall_mem_pwFilter ?_ x l).1 hne x hx rfl
    intro a b c hac
    by_cases hab : key a = key b
    · exact Or.inr (hab ▸ hac)
    · exact Or.inl hab

theorem isSome_lastOf? (k : κ) : (lastOf? key l k).isSome = l.any (key · = k) := by
  rw [Bool.eq_iff_iff, lastOf?, find?_isSome]
  simp

end Maps

/-- Rows with different keys have one sorted order. -/
theorem SortFunc.eq_of_perm [LinearOrder κ] {key : α → κ} (S : SortFunc key) {l l' : List α}
    (h : l.Perm l') (hkeys : (l.map key).Nodup) : S.sort l = S.sort l' := by
  have hperm : (S.sort l).Perm (S.sort l') := (S.perm l).trans (h.trans (S.perm l').symm)
  refine hperm.eq_of_pairwise ?_ (S.sorted l) (S.sorted l')
  intro a b ha hb hab hba
  have hmem : ∀ {x}, x ∈ S.sort l' → x ∈ l := fun hx => h.mem_iff.2 ((S.perm l').mem_iff.1 hx)
  exact Table.eq_of_key hkeys ((S.perm l).mem_iff.1 ha) (hmem hb) (le_antisymm hab hba)

/-! ## Map sets -/

theorem lookup_bySet (records : List ProgramRecord) (k : ProgramID) :
    ((bySet records).lookup k).getD [] =
      (records.filter fun r => mapSetID r = k).map (·.programID) := by
  induction records using reverseRecOn with
  | nil => rfl
  | append_singleton records r ih =>
    rw [bySet, foldl_append, foldl_cons, foldl_nil, ← bySet, Table.lookup_cons,
      filter_append, map_append, ← ih]
    by_cases hk : k = mapSetID r
    · subst hk
      simp
    · rw [if_neg hk, Table.lookup_drop (· = mapSetID r), if_neg hk]
      simp [Ne.symm hk]

theorem mapSetID_of_row {s : Store} {p : ProgramRow} {r : ProgramRecord}
    (h : s.programRecord p = some r) : r.programID = p.programID ∧ mapSetID r = p.mapSetID := by
  obtain ⟨ms, -, -, rfl⟩ := Store.programRecord_eq_some h
  unfold mapSetID
  by_cases hown : p.mapSetID = p.programID
  · simp [hown]
  · simp [hown]

/-- **The members of a map set are its users in the store**, whatever the order the program list is
gone through. -/
theorem mapSetMembers_eq {s : Store} (hsets : s.SetsRecorded) {records : List ProgramRecord}
    (hlist : records.Perm s.listPrograms) {p : ProgramRow} (hp : p ∈ s.programs) :
    ∃ r ∈ records, r.programID = p.programID ∧
      mapSetMembers records r = listMapSetUsers s p.mapSetID := by
  obtain ⟨r, hr⟩ := exists_programRecord (hsets p hp)
  obtain ⟨hid, hset⟩ := mapSetID_of_row hr
  refine ⟨r, hlist.mem_iff.2 (mem_filterMap.2 ⟨p, hp, hr⟩), hid, ?_⟩
  -- the list has one record for each row, in the set of the row
  have hrows : ∀ rows : List ProgramRow, (∀ q ∈ rows, ∃ x, s.programRecord q = some x) →
      ((rows.filterMap s.programRecord).filter fun x => mapSetID x = p.mapSetID).map (·.programID) =
        (rows.filter (·.mapSetID = p.mapSetID)).map (·.programID) := by
    intro rows hrows
    induction rows with
    | nil => rfl
    | cons q rows ih =>
      obtain ⟨x, hx⟩ := hrows q mem_cons_self
      obtain ⟨hxid, hxset⟩ := mapSetID_of_row hx
      have hrest := ih fun q' hq' => hrows q' (mem_cons_of_mem _ hq')
      rw [filterMap_cons_some hx, filter_cons, filter_cons, hxset]
      by_cases hq : q.mapSetID = p.mapSetID
      · simp [hq, hxid, hrest]
      · simp [hq, hrest]
  unfold mapSetMembers listMapSetUsers
  rw [lookup_bySet, hset, ← hrows s.programs fun q hq => exists_programRecord (hsets q hq)]
  have hperm := (hlist.filter fun x => mapSetID x = p.mapSetID).map (·.programID)
  exact ((perm_insertionSort _ _).trans
    (hperm.trans (perm_insertionSort _ _).symm)).eq_of_pairwise
    (fun a b _ _ hab hba => le_antisymm hab hba) (pairwise_insertionSort _ _)
    (pairwise_insertionSort _ _)

/-- Programs 3 and 2 joined the maps of program 1, which is gone. -/
def ownerGone : Store :=
  { programs := [{ Sample.programRow 3 "c" .xdp with mapSetID := 1 },
      { Sample.programRow 2 "b" .xdp with mapSetID := 1 }]
    mapSets := [⟨1, .mapDir 1⟩] }

theorem mapSetMembers_ownerGone : ∃ r ∈ ownerGone.listPrograms, r.programID = 2 ∧
    mapSetMembers ownerGone.listPrograms r = listMapSetUsers ownerGone 1 := by
  have hsets : ownerGone.SetsRecorded := by
    unfold Store.SetsRecorded
    decide
  exact mapSetMembers_eq hsets .rfl (p := { Sample.programRow 2 "b" .xdp with mapSetID := 1 })
    (by decide)

/-! ## Each row once -/

def Observed.presence (o : Observed) (id : ProgramID) : Presence :=
  ⟨o.stored id, o.kernelPrograms.any (·.id = id), o.progPins.any (·.1 = id)⟩

def Observed.occurs (o : Observed) (id : ProgramID) : Bool :=
  o.seen id || o.progPins.any (·.1 = id)

theorem any_of_index [DecidableEq κ] {key : α → κ} {l : List α} {x : α} (hx : x ∈ index key l) :
    l.any (fun y => key y = key x) = true :=
  any_eq_true.2 ⟨x, mem_of_mem_index hx, decide_eq_true rfl⟩

theorem stored_of_mem {r : Ranges o} {p : ProgramRecord} (hp : p ∈ r.programs) :
    o.stored p.programID = true :=
  any_eq_true.2 ⟨p, r.programs_perm.mem_iff.1 hp, decide_eq_true rfl⟩

theorem nodup_programViews (r : Ranges o) : (r.programViews.map (·.programID)).Nodup := by
  have hstore := (r.programs_perm.map (·.programID)).nodup_iff.2 o.programIDs
  have hkernel := (r.kernelPrograms_perm.map (·.id)).nodup_iff.2 (nodup_index _ _)
  have hpins := (r.progPins_perm.map Prod.fst).nodup_iff.2 (nodup_index _ _)
  simp only [Ranges.programViews, map_append, map_map]
  refine nodup_append.2 ⟨hstore, nodup_append.2
    ⟨Table.nodup_filter hkernel _, Table.nodup_filter hpins _, ?_⟩, ?_⟩
  · intro a ha b hb
    obtain ⟨kp, hkp, rfl⟩ := mem_map.1 ha
    obtain ⟨pin, hpin, rfl⟩ := mem_map.1 hb
    rintro (heq : kp.id = pin.1)
    have hk := r.kernelPrograms_perm.mem_iff.1 (mem_filter.1 hkp).1
    simpa [Observed.seen, ← heq, any_of_index hk] using (mem_filter.1 hpin).2
  · intro a ha b hb
    obtain ⟨p, hp, rfl⟩ := mem_map.1 ha
    rintro rfl
    rcases mem_append.1 hb with hb | hb
    · obtain ⟨kp, hkp, heq : kp.id = p.programID⟩ := mem_map.1 hb
      simpa [heq, stored_of_mem hp] using (mem_filter.1 hkp).2
    · obtain ⟨pin, hpin, heq : pin.1 = p.programID⟩ := mem_map.1 hb
      simpa [heq, Observed.seen, stored_of_mem hp] using (mem_filter.1 hpin).2

theorem presence_of_mem {r : Ranges o} {v : ProgramView} (hv : v ∈ r.programViews) :
    v.presence = o.presence v.programID ∧ o.occurs v.programID = true := by
  rcases mem_append.1 hv with hv | hv
  · obtain ⟨p, hp, rfl⟩ := mem_map.1 hv
    simp [Observed.storeProgram, Observed.presence, Observed.occurs, Observed.seen, isSome_lastOf?,
      stored_of_mem hp]
  rcases mem_append.1 hv with hv | hv
  · obtain ⟨kp, hkp, rfl⟩ := mem_map.1 hv
    obtain ⟨hmem, hst⟩ := mem_filter.1 hkp
    have hk := any_of_index (r.kernelPrograms_perm.mem_iff.1 hmem)
    rw [Bool.not_eq_true'] at hst
    refine ⟨?_, show o.occurs kp.id = true by rw [Observed.occurs, Observed.seen, hk]; simp⟩
    show Presence.mk _ _ _ = o.presence kp.id
    rw [Observed.presence, hst, hk, isSome_lastOf?]
  · obtain ⟨pin, hpin, rfl⟩ := mem_map.1 hv
    obtain ⟨hmem, hseen⟩ := mem_filter.1 hpin
    have hp := any_of_index (r.progPins_perm.mem_iff.1 hmem)
    rw [Bool.not_eq_true', Observed.seen, Bool.or_eq_false_iff] at hseen
    refine ⟨?_, show o.occurs pin.1 = true by rw [Observed.occurs, hp]; simp⟩
    show Presence.mk _ _ _ = o.presence pin.1
    rw [Observed.presence, hseen.1, hseen.2, hp]

theorem exists_programView (r : Ranges o) {id : ProgramID} (h : o.occurs id = true) :
    ∃ v ∈ r.programViews, v.programID = id := by
  by_cases hst : o.stored id = true
  · obtain ⟨p, hp, hid⟩ := any_eq_true.1 hst
    exact ⟨_, mem_append_left _ (mem_map_of_mem (r.programs_perm.mem_iff.2 hp)),
      of_decide_eq_true hid⟩
  by_cases hk : ∃ kp ∈ o.kernelPrograms, kp.id = id
  · obtain ⟨kp, hkp, hid⟩ := exists_mem_index.2 hk
    refine ⟨o.kernelProgram kp, mem_append_right _ (mem_append_left _
      (mem_map_of_mem (mem_filter.2 ⟨r.kernelPrograms_perm.mem_iff.2 hkp, ?_⟩))), hid⟩
    simpa [hid] using hst
  · have hpin : ∃ pin ∈ o.progPins, pin.1 = id := by
      simpa [Observed.occurs, Observed.seen, hst, hk] using h
    obtain ⟨pin, hpin, hid⟩ := exists_mem_index.2 hpin
    refine ⟨fsProgram pin, mem_append_right _ (mem_append_right _
      (mem_map_of_mem (mem_filter.2 ⟨r.progPins_perm.mem_iff.2 hpin, ?_⟩))), hid⟩
    simpa [Observed.seen, hid, hst] using hk

theorem filter_programViews (r : Ranges o) (id : ProgramID) :
    (r.programViews.filter (·.programID = id)).map (·.presence) =
      if o.occurs id then [o.presence id] else [] := by
  split
  · rename_i hoc
    obtain ⟨v, hv, rfl⟩ := exists_programView r hoc
    rw [Table.filter_of_mem (nodup_programViews r) hv, map_singleton, (presence_of_mem hv).1]
  · rename_i hoc
    refine map_eq_nil_iff.2 (filter_eq_nil_iff.2 fun v hv hid => hoc ?_)
    exact of_decide_eq_true hid ▸ (presence_of_mem hv).2

theorem managed_linkViews (r : Ranges o) : r.linkViews.filterMap (·.managed) = o.links := by
  unfold Ranges.linkViews
  have hstore : (fun l => (o.storeLink l).managed) = some := rfl
  have hkernel : (fun l => (o.kernelLink l).managed) = fun _ => none := rfl
  simp [hstore, hkernel]

theorem kernel_linkViews (r : Ranges o) :
    (r.linkViews.filter (·.managed = none)).filterMap (·.kernel) =
      r.kernelLinks.filter o.unrecorded := by
  unfold Ranges.linkViews
  rw [filter_append, filter_map, filter_map, filterMap_append, filterMap_map, filterMap_map]
  simp [Function.comp_def, Observed.storeLink, Observed.kernelLink]

theorem countP_kernelOnly (id : KernelLinkID) : o.kernelOnly.countP (·.id = id) =
    if (∃ kl ∈ o.kernelLinks, kl.id = id) ∧ ∀ l ∈ o.links, l.kernelLinkID ≠ some id
    then 1 else 0 := by
  have hkeys : (o.kernelOnly.map (·.id)).Nodup := Table.nodup_filter (nodup_index _ _) _
  split
  · rename_i h
    obtain ⟨kl, hkl, rfl⟩ := exists_mem_index.2 h.1
    have hmem : kl ∈ o.kernelOnly := mem_filter.2 ⟨hkl, by simpa [Observed.unrecorded] using h.2⟩
    rw [countP_eq_length_filter, Table.filter_of_mem hkeys hmem, length_singleton]
  · rename_i h
    refine countP_eq_zero.2 fun kl hkl hid => h ?_
    obtain ⟨hmem, hun⟩ := mem_filter.1 hkl
    obtain rfl := of_decide_eq_true hid
    exact ⟨⟨kl, mem_of_mem_index hmem, rfl⟩, by simpa [Observed.unrecorded] using hun⟩

theorem perm_programs (S : Sorts) (r : Ranges o) : (snapshot S o r).programs.Perm
    (r.programViews.map fun v =>
      { v with links := r.linkViews.filter (·.managed.map (·.programID) = some v.programID) }) :=
  S.programs.perm _

theorem perm_links (S : Sorts) (r : Ranges o) : (snapshot S o r).links.Perm r.linkViews :=
  S.links.perm _

/-- **A snapshot lists every program and every link once**, a program with the sources that have it;
a kernel link is a row of its own if no link of the store records it. -/
theorem snapshot_lists_each (S : Sorts) (o : Observed) (r : Ranges o) :
    (∀ id, ((snapshot S o r).programs.filter (·.programID = id)).map (·.presence) =
      if o.occurs id then [o.presence id] else []) ∧
    (∀ l, ((snapshot S o r).links.filterMap (·.managed)).count l = if l ∈ o.links then 1 else 0) ∧
    ∀ id, (((snapshot S o r).links.filter (·.managed = none)).filterMap (·.kernel)).countP
        (·.id = id) =
      if (∃ kl ∈ o.kernelLinks, kl.id = id) ∧ ∀ l ∈ o.links, l.kernelLinkID ≠ some id
      then 1 else 0 := by
  refine ⟨fun id => ?_, fun l => ?_, fun id => ?_⟩
  · have hperm := ((perm_programs S r).filter (·.programID = id)).map (·.presence)
    rw [filter_map, map_map] at hperm
    have hrows := hperm.trans (List.Perm.of_eq (filter_programViews r id))
    split at hrows
    · rw [if_pos ‹_›, perm_singleton.1 hrows]
    · rw [if_neg ‹_›, perm_nil.1 hrows]
  · rw [((perm_links S r).filterMap _).count_eq, managed_linkViews]
    exact List.Nodup.count (List.Nodup.of_map _ o.linkIDs)
  · rw [(((perm_links S r).filter _).filterMap _).countP_eq, kernel_linkViews,
      (r.kernelLinks_perm.filter _).countP_eq]
    exact countP_kernelOnly id

/-! ## The order of the rows -/

theorem links_of_program (r : Ranges o) (id : ProgramID) :
    r.linkViews.filter (·.managed.map (·.programID) = some id) =
      (o.links.map o.storeLink).filter (·.managed.map (·.programID) = some id) := by
  have hkernel : ((r.kernelLinks.filter o.unrecorded).map o.kernelLink).filter
      (·.managed.map (·.programID) = some id) = [] := by
    refine filter_eq_nil_iff.2 fun v hv => ?_
    obtain ⟨kl, -, rfl⟩ := mem_map.1 hv
    simp [Observed.kernelLink]
  rw [Ranges.linkViews, filter_append, hkernel, append_nil]

theorem nodup_linkViews (r : Ranges o) (h : o.kernelOnly.length ≤ 1) :
    (r.linkViews.map (·.id)).Nodup := by
  have hlen := (r.kernelLinks_perm.filter o.unrecorded).length_eq
  rw [Ranges.linkViews, map_append, map_map, map_map]
  refine nodup_append.2 ⟨o.linkIDs, ?_, ?_⟩
  · refine nodup_iff_count_le_one.2 fun a => count_le_length.trans ?_
    rw [length_map, hlen]
    exact h
  · intro a ha b hb
    obtain ⟨l, hl, rfl⟩ := mem_map.1 ha
    obtain ⟨kl, -, rfl⟩ := mem_map.1 hb
    exact o.linkIDs_pos l hl

theorem key_of_sortKey {v w : DispatcherView} (h : v.sortKey = w.sortKey) : v.key = w.key := by
  obtain ⟨⟨t, n, i⟩, _⟩ := v
  obtain ⟨⟨t', n', i'⟩, _⟩ := w
  simp only [DispatcherView.sortKey, EmbeddingLike.apply_eq_iff_eq, Prod.mk.injEq] at h
  obtain ⟨ht, rfl, rfl⟩ := h
  have htype : t = t' := by cases t <;> cases t' <;> first | rfl | exact absurd ht (by decide)
  rw [htype]

theorem nodup_dispatcherViews (r : Ranges o) : (r.dispatcherViews.map (·.sortKey)).Nodup := by
  have hkeys : (r.dispatcherViews.map (·.key)).Nodup := by
    have hdirs := (r.dispatcherDirs_perm.map (·.key)).nodup_iff.2 (nodup_index _ _)
    rw [Ranges.dispatcherViews, map_append, map_map, map_map]
    refine nodup_append.2 ⟨o.dispatcherKeys, Table.nodup_filter hdirs _, ?_⟩
    intro a ha b hb
    obtain ⟨d, hd, rfl⟩ := mem_map.1 ha
    obtain ⟨dir, hdir, rfl⟩ := mem_map.1 hb
    have hnone := (mem_filter.1 hdir).2
    exact of_decide_eq_true (all_eq_true.1 hnone d hd)
  refine (List.Nodup.of_map _ hkeys).map_on fun v hv w hw heq => ?_
  exact Table.eq_of_key hkeys hv hw (key_of_sortKey heq)

theorem eq_of_few (S : Sorts) (h : o.kernelOnly.length ≤ 1) (r r' : Ranges o) :
    snapshot S o r = snapshot S o r' := by
  unfold snapshot
  congr 1
  · simp only [links_of_program]
    refine S.programs.eq_of_perm (List.Perm.map _ ?_) ?_
    · exact ((r.programs_perm.trans r'.programs_perm.symm).map _).append
        ((((r.kernelPrograms_perm.trans r'.kernelPrograms_perm.symm).filter _).map _).append
          (((r.progPins_perm.trans r'.progPins_perm.symm).filter _).map _))
    · rw [map_map]
      exact nodup_programViews r
  · exact S.links.eq_of_perm (List.Perm.append_left _
      (((r.kernelLinks_perm.trans r'.kernelLinks_perm.symm).filter _).map _)) (nodup_linkViews r h)
  · exact S.dispatchers.eq_of_perm (List.Perm.append_left _
      (((r.dispatcherDirs_perm.trans r'.dispatcherDirs_perm.symm).filter _).map _))
      (nodup_dispatcherViews r)

/-- Every map in the order of its entries. -/
def Ranges.plain (o : Observed) : Ranges o where
  programs := o.programs
  kernelPrograms := index (·.id) o.kernelPrograms
  progPins := index Prod.fst o.progPins
  kernelLinks := index (·.id) o.kernelLinks
  dispatcherDirs := index (·.key) o.dispatcherDirs
  programs_perm := .rfl
  kernelPrograms_perm := .rfl
  progPins_perm := .rfl
  kernelLinks_perm := .rfl
  dispatcherDirs_perm := .rfl

/-- The run that meets `a` where another meets `b`. -/
def Ranges.swapped {a b : KernelLink} (ha : a ∈ index (·.id) o.kernelLinks)
    (hb : b ∈ index (·.id) o.kernelLinks) : Ranges o :=
  { Ranges.plain o with
    kernelLinks := (index (·.id) o.kernelLinks).map (Equiv.swap a b)
    kernelLinks_perm := by
      have hnodup : (index (·.id) o.kernelLinks).Nodup := .of_map _ (nodup_index _ _)
      have hmem : ∀ x ∈ index (·.id) o.kernelLinks,
          Equiv.swap a b x ∈ index (·.id) o.kernelLinks := by
        intro x hx
        rw [Equiv.swap_apply_def]
        split_ifs <;> assumption
      refine (perm_ext_iff_of_nodup (hnodup.map (Equiv.injective _)) hnodup).2 fun x => ?_
      refine ⟨fun hx => ?_, fun hx => ?_⟩
      · obtain ⟨y, hy, rfl⟩ := mem_map.1 hx
        exact hmem y hy
      · exact mem_map.2 ⟨_, hmem x hx, Equiv.swap_apply_self a b x⟩ }

theorem kernelLink_injective (o : Observed) : Function.Injective o.kernelLink :=
  fun _ _ h => Option.some.inj (congrArg LinkView.kernel h)

/-- The rows of that run are those of the other, renamed. -/
theorem linkViews_swapped {a b : KernelLink} (ha : a ∈ o.kernelOnly) (hb : b ∈ o.kernelOnly) :
    (Ranges.swapped (mem_filter.1 ha).1 (mem_filter.1 hb).1).linkViews =
      (Ranges.plain o).linkViews.map (Equiv.swap (o.kernelLink a) (o.kernelLink b)) := by
  have hun : o.unrecorded ∘ Equiv.swap a b = o.unrecorded := by
    funext x
    rw [Function.comp_apply, Equiv.swap_apply_def]
    split_ifs with hxa hxb
    · rw [(mem_filter.1 hb).2, hxa, (mem_filter.1 ha).2]
    · rw [(mem_filter.1 ha).2, hxb, (mem_filter.1 hb).2]
    · rfl
  have hstore : ∀ l, Equiv.swap (o.kernelLink a) (o.kernelLink b) (o.storeLink l) = o.storeLink l :=
    fun l => Equiv.swap_apply_of_ne_of_ne (fun h => nomatch congrArg LinkView.managed h)
      (fun h => nomatch congrArg LinkView.managed h)
  have hkernel : ∀ x, o.kernelLink (Equiv.swap a b x) =
      Equiv.swap (o.kernelLink a) (o.kernelLink b) (o.kernelLink x) :=
    (kernelLink_injective o).map_swap _ _
  simp only [Ranges.linkViews, Ranges.swapped, Ranges.plain, map_append, map_map,
    filter_map, hun, Function.comp_def, hstore, hkernel]

/-- **The lists of a snapshot do not depend on the order of its maps exactly when the kernel holds
at most one link the store does not record**: such links have no id to sort them by. -/
theorem snapshot_determined_iff (S : Sorts) (o : Observed) :
    (∀ r r' : Ranges o, snapshot S o r = snapshot S o r') ↔ o.kernelOnly.length ≤ 1 := by
  refine ⟨fun h => ?_, fun h => eq_of_few S h⟩
  by_contra hlen
  obtain ⟨a, b, rest, hab⟩ : ∃ a b rest, o.kernelOnly = a :: b :: rest := by
    match hk : o.kernelOnly with
    | [] => simp [hk] at hlen
    | [a] => simp [hk] at hlen
    | a :: b :: rest => exact ⟨a, b, rest, rfl⟩
  have ha : a ∈ o.kernelOnly := by simp [hab]
  have hb : b ∈ o.kernelOnly := by simp [hab]
  have hne : a ≠ b := by
    have hnodup : o.kernelOnly.Nodup := .filter _ (.of_map _ (nodup_index _ _))
    rw [hab, nodup_cons] at hnodup
    exact fun heq => hnodup.1 (heq ▸ mem_cons_self)
  have hid : ∀ v, (Equiv.swap (o.kernelLink a) (o.kernelLink b) v).id = v.id := by
    intro v
    rw [Equiv.swap_apply_def]
    split_ifs with hva hvb
    · rw [hva]; rfl
    · rw [hvb]; rfl
    · rfl
  -- the sort cannot tell the two links apart, so it puts each where it puts the other
  have hlinks := congrArg Observation.links
    (h (Ranges.plain o) (Ranges.swapped (mem_filter.1 ha).1 (mem_filter.1 hb).1))
  simp only [snapshot, linkViews_swapped ha hb, S.links.natural _ hid] at hlinks
  have hrow : o.kernelLink a ∈ S.links.sort (Ranges.plain o).linkViews :=
    (S.links.perm _).mem_iff.2 (mem_append_right _ (mem_map_of_mem ha))
  have hfix := map_inj_left.1 ((map_id _).trans hlinks) _ hrow
  rw [Equiv.swap_apply_left] at hfix
  exact hne (kernelLink_injective o hfix)

/-- Two links the store does not record, of programs 5 and 6. -/
def twoLinks : Observed where
  kernelPrograms := []
  kernelLinks := [⟨1, 5⟩, ⟨2, 6⟩]
  linkPins := []
  progPins := []
  mapDirs := []
  typeDir := fun _ => []
  names := fun _ => nodup_nil
  pathExists := fun _ => false
  pathText := fun _ => ""
  programs := []
  links := []
  dispatchers := []
  programIDs := nodup_nil
  linkIDs := nodup_nil
  linkIDs_pos := by simp
  dispatcherKeys := nodup_nil
  fits := by simp

/-- A stable sort. -/
def SortFunc.insertion [LinearOrder κ] (key : α → κ) : SortFunc key where
  sort := insertionSort fun a b => key a ≤ key b
  perm := perm_insertionSort _
  sorted := by
    have : Std.Total fun a b => key a ≤ key b := ⟨fun a b => le_total (key a) (key b)⟩
    have : IsTrans α fun a b => key a ≤ key b := ⟨fun _ _ _ => le_trans⟩
    exact pairwise_insertionSort _
  natural := by
    intro f hf l
    refine (map_insertionSort _ _ f l ?_).symm
    intro a _ b _
    rw [hf, hf]

def Sorts.insertion : Sorts := ⟨.insertion _, .insertion _, .insertion _⟩

/-- Two runs over one state list two links in either order. -/
theorem kernel_links_in_either_order :
    (snapshot .insertion twoLinks (.plain twoLinks)).links ≠
      (snapshot .insertion twoLinks { Ranges.plain twoLinks with
        kernelLinks := [⟨2, 6⟩, ⟨1, 5⟩]
        kernelLinks_perm := by decide }).links := by
  decide

/-! ## The revision of a dispatcher -/

/-- The directory of the revision the store records. -/
def Observed.revisionDir (o : Observed) (d : DispatcherSummary) : Option DirEntry :=
  (o.typeDir d.key.type).find? fun e =>
    e.isDir && e.name = dispatcherDirName d.key.nsid d.key.ifindex d.revision

/-- The directory of the attach point that the scan meets last. -/
def Observed.lastDir (o : Observed) (key : Key) : Option DispatcherDir :=
  lastOf? (·.key) o.dispatcherDirs key

theorem lastDir_eq_none {key : Key} :
    o.lastDir key = none ↔ ∀ dir ∈ o.dispatcherDirs, dir.key ≠ key := by
  rw [← Option.isNone_iff_eq_none, ← Option.not_isSome, Observed.lastDir, isSome_lastOf?]
  simp

theorem mem_allTypes (t : DispatcherType) : t ∈ [DispatcherType.xdp, .tcIngress, .tcEgress] := by
  cases t <;> simp

theorem mem_dispatcherDirs {d : DispatcherSummary} (hd : d ∈ o.dispatchers) {e : DirEntry}
    (h : o.revisionDir d = some e) : ⟨d.key, d.revision, e.links⟩ ∈ o.dispatcherDirs := by
  obtain ⟨hn, hi, hr⟩ := o.fits d hd
  have he := find?_some h
  simp only [Bool.and_eq_true, decide_eq_true_eq] at he
  refine mem_flatMap.2 ⟨d.key.type, mem_allTypes _, mem_filterMap.2 ⟨e, mem_of_find?_eq_some h, ?_⟩⟩
  rw [if_pos he.1, he.2, parse_dispatcherDirName hn hi hr]

theorem mem_dispatcherViews (r : Ranges o) {row : DispatcherView} {d : DispatcherSummary} :
    row ∈ r.dispatcherViews ∧ row.managed = some d ↔
    d ∈ o.dispatchers ∧ row = o.storeDispatcher d := by
  constructor
  · rintro ⟨hrow, hm⟩
    rcases mem_append.1 hrow with h | h
    · obtain ⟨d', hd', rfl⟩ := mem_map.1 h
      obtain rfl := Option.some.inj hm
      exact ⟨hd', rfl⟩
    · obtain ⟨dir, -, rfl⟩ := mem_map.1 h
      nomatch hm
  · rintro ⟨hd, rfl⟩
    exact ⟨mem_append_left _ (mem_map_of_mem hd), rfl⟩

/-- The presence flag and the link count of a row are those of the recorded revision's directory. -/
def Observed.ShowsRevision (o : Observed) (row : DispatcherView) (d : DispatcherSummary) : Prop :=
  row.progPresence.inFS = (o.revisionDir d).isSome ∧
    row.fsLinkCount = (o.revisionDir d).elim (-1 : Int) fun e => e.links

/-- **A dispatcher is shown with the facts of its revision's directory exactly when its attach point
has no directory, or that directory is there and holds as many links as the one the scan meets
last.** -/
theorem revision_facts_iff (S : Sorts) (o : Observed) (r : Ranges o) :
    (∀ row ∈ (snapshot S o r).dispatchers, ∀ d, row.managed = some d → o.ShowsRevision row d) ↔
    ∀ d ∈ o.dispatchers, (∀ dir ∈ o.dispatcherDirs, dir.key ≠ d.key) ∨
      ∃ e dir, o.revisionDir d = some e ∧ o.lastDir d.key = some dir ∧ dir.linkCount = e.links := by
  have hmem : ∀ row, row ∈ (snapshot S o r).dispatchers ↔ row ∈ r.dispatcherViews := fun row =>
    (S.dispatchers.perm _).mem_iff
  have hrows : (∀ row ∈ (snapshot S o r).dispatchers, ∀ d, row.managed = some d →
      o.ShowsRevision row d) ↔ ∀ d ∈ o.dispatchers, o.ShowsRevision (o.storeDispatcher d) d := by
    constructor
    · intro h d hd
      obtain ⟨hrow, hm⟩ := (mem_dispatcherViews r).2 ⟨hd, rfl⟩
      exact h _ ((hmem _).2 hrow) d hm
    · intro h row hrow d hm
      obtain ⟨hd, rfl⟩ := (mem_dispatcherViews r).1 ⟨(hmem _).1 hrow, hm⟩
      exact h d hd
  rw [hrows]
  refine forall₂_congr fun d hd => ?_
  show (o.lastDir d.key).isSome = _ ∧
    (o.lastDir d.key).elim (-1 : Int) (fun dir => dir.linkCount) = _ ↔ _
  rw [← lastDir_eq_none]
  cases hlast : o.lastDir d.key with
  | none =>
    have hnone : o.revisionDir d = none := by
      by_contra hsome
      obtain ⟨e, he⟩ := Option.ne_none_iff_exists'.1 hsome
      exact lastDir_eq_none.1 hlast _ (mem_dispatcherDirs hd he) rfl
    simp [hnone]
  | some dir =>
    cases o.revisionDir d with
    | none => simp
    | some e => grind

/-- The scan meets revision 9 after revision 10. -/
def twoRevisions : Observed :=
  { twoLinks with
    typeDir := fun
      | .xdp => [⟨"dispatcher_1_2_10", true, 3⟩, ⟨"dispatcher_1_2_9", true, 1⟩]
      | _ => []
    names := fun t => by cases t <;> decide
    dispatchers := [⟨⟨.xdp, 1, 2⟩, 10, ⟨7, none, none, none, ""⟩, 3⟩]
    dispatcherKeys := by decide
    fits := by decide }

/-- A dispatcher with three links is shown with the one link of a revision that was left behind. -/
theorem stale_revision_shown :
    (snapshot .insertion twoRevisions (.plain twoRevisions)).dispatchers.map (fun v =>
        (v.revision, v.fsLinkCount)) = [(10, 1)] ∧
      twoRevisions.dispatchers.map (fun d => (twoRevisions.revisionDir d).map (·.links)) =
        [some 3] := by
  decide

end Bpfman.Inspect
