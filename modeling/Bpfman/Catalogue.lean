import Bpfman.Removal

/-!
# Deleting programs from the catalogue

What a deletion is for, in terms of the records only: `Catalogue.delete` removes the programs of a
list, their references to shared maps, the map sets nobody else uses and their links. A link of
another program goes only with a dispatcher whose recorded namespace is gone.

* `Catalogue.delete_delete` — deleting in two steps is deleting at once, so the order of the
  programs does not matter;
* `detachAndUnload_catalogue` — with no failing primitive, the deletion of one managed program is
  `Catalogue.delete` of that program, if no two of its links are on one dispatcher whose recorded
  namespace is gone.
-/

namespace Bpfman

open Fallible Proc List Store

variable {e : Env} {w w' : World} {s s' : Store} {p : ProgramID} {links : List LinkRecord}

variable {record : ProgramRecord} {x : ProgramRow}

/-! ## The catalogue -/

/-- The records of the store. -/
@[ext] structure Catalogue where
  programs : List ProgramRow
  mapSets : List MapSetRow
  sharedMapPins : List SharedMapPinRow
  links : Set LinkData

def Store.catalogue (s : Store) : Catalogue := ⟨s.programs, s.mapSets, s.sharedMapPins, s.linkSet⟩

/-- The links that are left when the programs `P` are deleted. -/
def sweep (e : Env) (P : List ProgramID) (L : Set LinkData) : Set LinkData :=
  {n ∈ L | n.programID ∉ P ∧ ¬ (n.gone e ∧ ∃ m ∈ L, m.programID ∈ P ∧ m.key = n.key)}

/-- Whether the map set `m` stays when the programs `P` are deleted: it is not theirs, or it has
another user. -/
def KeepsSet (programs : List ProgramRow) (P : List ProgramID) (m : ProgramID) : Prop :=
  (∀ x ∈ programs, x.mapSetID = m → x.programID ∉ P) ∨
    ∃ x ∈ programs, x.mapSetID = m ∧ x.programID ∉ P

instance (programs : List ProgramRow) (P : List ProgramID) (m : ProgramID) :
    Decidable (KeepsSet programs P m) := inferInstanceAs (Decidable (_ ∨ _))

def Catalogue.delete (e : Env) (P : List ProgramID) (c : Catalogue) : Catalogue where
  programs := c.programs.filter (·.programID ∉ P)
  mapSets := c.mapSets.filter fun r => KeepsSet c.programs P r.id
  sharedMapPins := c.sharedMapPins.filter (·.programID ∉ P)
  links := sweep e P c.links

section Delete

variable {P Q : List ProgramID} {L : Set LinkData} {programs : List ProgramRow} {m : ProgramID}

theorem sweep_congr (h : ∀ p, p ∈ P ↔ p ∈ Q) : sweep e P L = sweep e Q L := by
  unfold sweep
  simp only [h]

/-- A dispatcher that two sweeps touch goes with the first. -/
theorem sweep_sweep : sweep e Q (sweep e P L) = sweep e (Q ++ P) L := by
  ext n
  constructor
  · rintro ⟨⟨hn, hP, hup⟩, hQ, hup'⟩
    refine ⟨hn, fun hmem => (mem_append.1 hmem).elim hQ hP, ?_⟩
    rintro ⟨hgone, m, hm, hmem, hkey⟩
    by_cases hmP : m.programID ∈ P
    · exact hup ⟨hgone, m, hm, hmP, hkey⟩
    · -- the first sweep leaves `m`, or it would not leave `n`
      have hmQ := (mem_append.1 hmem).resolve_right hmP
      refine hup' ⟨hgone, m, ⟨hm, hmP, ?_⟩, hmQ, hkey⟩
      rintro ⟨-, m', hm', hm'P, hkey'⟩
      exact hup ⟨hgone, m', hm', hm'P, hkey'.trans hkey⟩
  · rintro ⟨hn, hmem, hup⟩
    have hP : n.programID ∉ P := fun h => hmem (mem_append_right _ h)
    have hQ : n.programID ∉ Q := fun h => hmem (mem_append_left _ h)
    refine ⟨⟨hn, hP, ?_⟩, hQ, ?_⟩
    · rintro ⟨hgone, m, hm, hmP, hkey⟩
      exact hup ⟨hgone, m, hm, mem_append_right _ hmP, hkey⟩
    · rintro ⟨hgone, m, ⟨hm, -⟩, hmQ, hkey⟩
      exact hup ⟨hgone, m, hm, mem_append_left _ hmQ, hkey⟩

theorem keepsSet_congr (h : ∀ p, p ∈ P ↔ p ∈ Q) :
    KeepsSet programs P m ↔ KeepsSet programs Q m := by
  unfold KeepsSet
  simp only [h]

theorem keepsSet_append :
    KeepsSet programs (Q ++ P) m ↔
      KeepsSet (programs.filter (·.programID ∉ P)) Q m ∧ KeepsSet programs P m := by
  simp only [KeepsSet, mem_append, mem_filter, decide_eq_true_eq, not_or]
  constructor
  · rintro (hno | ⟨x, hx, hm, hQ, hP⟩)
    · exact ⟨.inl fun x ⟨hx, _⟩ hm => (hno x hx hm).1, .inl fun x hx hm => (hno x hx hm).2⟩
    · exact ⟨.inr ⟨x, ⟨hx, hP⟩, hm, hQ⟩, .inr ⟨x, hx, hm, hP⟩⟩
  · rintro ⟨hno | ⟨x, ⟨hx, hP⟩, hm, hQ⟩, hkeep⟩
    · rcases hkeep with hno' | ⟨x, hx, hm, hP⟩
      · exact .inl fun x hx hm => ⟨hno x ⟨hx, hno' x hx hm⟩ hm, hno' x hx hm⟩
      · exact .inr ⟨x, hx, hm, hno x ⟨hx, hP⟩ hm, hP⟩
    · exact .inr ⟨x, hx, hm, hQ, hP⟩

/-- Only the set of the programs deleted matters. -/
theorem Catalogue.delete_congr (h : ∀ p, p ∈ P ↔ p ∈ Q) (c : Catalogue) :
    c.delete e P = c.delete e Q := by
  simp only [Catalogue.delete, sweep_congr h, keepsSet_congr h, h]

theorem Catalogue.delete_nil (c : Catalogue) : c.delete e [] = c := by
  refine Catalogue.ext ?_ ?_ ?_ ?_
  · exact filter_eq_self.2 fun x _ => by simp
  · exact filter_eq_self.2 fun x _ => by simp [KeepsSet]
  · exact filter_eq_self.2 fun x _ => by simp
  · ext n
    simp [Catalogue.delete, sweep]

/-- **Deleting in two steps is deleting at once.** -/
theorem Catalogue.delete_delete (c : Catalogue) :
    (c.delete e P).delete e Q = c.delete e (Q ++ P) := by
  refine Catalogue.ext ?_ ?_ ?_ sweep_sweep
  · simp only [Catalogue.delete, filter_filter]
    exact filter_congr fun x _ => by simp
  · change filter (fun r => KeepsSet (c.programs.filter (·.programID ∉ P)) Q r.id)
      (c.mapSets.filter fun r => KeepsSet c.programs P r.id) = _
    rw [filter_filter]
    refine filter_congr fun r _ => ?_
    rw [← Bool.decide_and]
    exact decide_eq_decide.2 keepsSet_append.symm
  · simp only [Catalogue.delete, filter_filter]
    exact filter_congr fun x _ => by simp

end Delete

/-! ## The links of a program -/

/-- **A loop of detaches removes its links**, and the members of every dispatcher it takes down. -/
theorem UnlinkedAll.linkSet (h : UnlinkedAll e true links s s') (hs : s.Consistent)
    (ha : Agrees s links) :
    s'.linkSet = {n ∈ s.linkSet | ∀ link ∈ links, n.id ≠ link.id ∧ ¬ TakesDown e link n} := by
  induction h with
  | nil => simp
  | cons h _ ih =>
    rw [ih (h.consistent hs) (ha.unlinked hs h), h.linkSet hs ha]
    simp only [Set.mem_ofPred_eq, forall_mem_cons, and_assoc]

theorem mem_list_iff (hs : s.Consistent) (hlist : s.listLinksByProgram p = .ok links) {i : LinkID}
    {key : Option Key} :
    (∃ link ∈ links, link.id = i ∧ extractDispatcherKey link.details = key) ↔
      ∃ n ∈ s.linkSet, n.programID = p ∧ n.id = i ∧ n.key = key := by
  rw [listLinksByProgram_eq_ok hlist]
  constructor
  · rintro ⟨link, hlink, rfl, rfl⟩
    obtain ⟨l, hl, rfl⟩ := mem_map.1 hlink
    obtain ⟨hl, hp⟩ := mem_filter.1 hl
    exact ⟨s.linkData l, mem_linkSet hl, of_decide_eq_true hp, rfl, (key_listRecord hs hl).symm⟩
  · rintro ⟨n, ⟨l, hl, rfl⟩, hp, rfl, rfl⟩
    exact ⟨s.listRecord l, mem_map_of_mem (mem_filter.2 ⟨hl, decide_eq_true hp⟩), rfl,
      key_listRecord hs hl⟩

theorem UnlinkedAll.sweep (h : UnlinkedAll e true links s s') (hs : s.Consistent)
    (hlist : s.listLinksByProgram p = .ok links) : s'.linkSet = sweep e [p] s.linkSet := by
  rw [h.linkSet hs (agrees_of_list hs hlist)]
  ext n
  simp only [Set.mem_ofPred_eq, Bpfman.sweep, mem_singleton]
  refine and_congr_right fun hn => ?_
  constructor
  · intro hall
    refine ⟨fun hp => ?_, ?_⟩
    · obtain ⟨link, hlink, hid, -⟩ := (mem_list_iff hs hlist).2 ⟨n, hn, hp, rfl, rfl⟩
      exact (hall link hlink).1 hid.symm
    · rintro ⟨hgone, m, hm, hp, hkey⟩
      obtain ⟨link, hlink, -, hk⟩ := (mem_list_iff hs hlist).2 ⟨m, hm, hp, rfl, rfl⟩
      exact (hall link hlink).2 ⟨hgone, hkey.symm.trans hk.symm⟩
  · rintro ⟨hp, hup⟩ link hlink
    obtain ⟨m, hm, hmp, hid, hk⟩ := (mem_list_iff hs hlist).1 ⟨link, hlink, rfl, rfl⟩
    refine ⟨fun heq => hp ?_, fun ⟨hgone, hkey⟩ => hup ⟨hgone, m, hm, hmp, hk.trans hkey.symm⟩⟩
    rw [linkData_inj hs hn hm (heq.trans hid.symm), hmp]

/-! ## The record of a program -/

/-- Every program has its map set recorded, as the foreign key of the table asks. -/
def Store.SetsRecorded (s : Store) : Prop := ∀ x ∈ s.programs, s.mapSetExists x.mapSetID = true

/-- It is so after every run of loads, reaps, unloads and deletions in which no primitive fails. -/
theorem setsRecorded_of_run {w₀ : World} (h₀ : SetsInv w₀)
    (h : Relation.ReflTransGen SetStep w₀ w) : w.store.SetsRecorded :=
  (setsInv_run h₀ h).recorded

/-- What the end of an unload does to the rows of programs and maps. -/
structure Drops (record : ProgramRecord) (s s' : Store) : Prop where
  programs : s'.programs = s.programs.filter (·.programID ≠ record.programID)
  sharedMapPins : s'.sharedMapPins = s.sharedMapPins.filter (·.programID ≠ record.programID)
  mapSets : ((∃ x ∈ s'.programs, x.mapSetID = record.mapSetID) ∧ s'.mapSets = s.mapSets) ∨
    ((∀ x ∈ s'.programs, x.mapSetID ≠ record.mapSetID) ∧
      s'.mapSets = s.mapSets.filter (·.id ≠ record.mapSetID))

theorem drops_release (h : release e record true w = .ok (.ok ()) w')
    (hlog : w'.failed = w.failed) : Drops record w.store w'.store := by
  obtain ⟨st, hst, hgc⟩ := gcMapSetIfUnused_of_release h hlog
  obtain ⟨-, rfl⟩ := deleteProgram_eq_ok hst
  rcases gcMapSetIfUnused_eq_ok hgc with ⟨huser, rfl⟩ | ⟨hno, w1, -, rfl⟩
  · exact ⟨rfl, rfl, .inl ⟨huser, rfl⟩⟩
  · exact ⟨rfl, rfl, .inr ⟨hno, rfl⟩⟩

theorem cleanupSharedMapPins_tables {id : ProgramID} (h : cleanupSharedMapPins e id w = .ok () w') :
    w'.store.programs = w.store.programs ∧ w'.store.mapSets = w.store.mapSets ∧
      w'.store.sharedMapPins = w.store.sharedMapPins.filter (·.programID ≠ id) := by
  obtain ⟨orphaned, w1, h1, h2⟩ := bind_eq_ok.1 h
  have hst : w'.store = w1.store :=
    (Keeps.forEach fun name _ => (sameStore_removeMapPin (.shared name)).ignore).ok h2
  obtain ⟨-, heq⟩ := prim_eq_ok.1 h1
  cases heq
  rw [hst]
  exact ⟨rfl, rfl, rfl⟩

/-- **The rest of an unload** deletes the record and what only it uses, when no primitive fails. -/
theorem drops_unloadRest {rebuilt : List Key}
    (h : unloadRest e record links rebuilt true w = .ok () w') (hlog : w'.failed = w.failed) :
    Drops record w.store w'.store := by
  obtain ⟨w1, w2, w3, w4, keys, h1, rfl, h3, rfl, h5, hquiet⟩ := unloadRest_eq_ok h
  obtain ⟨hlog2, hlog3⟩ := hquiet hlog
  have hrel := drops_release h3 hlog3
  have hpin : MapsUntouched w w1 := (mapsUntouched_removePin _).ok h1
  obtain ⟨u, w2, hshared, -⟩ := (journaled_cleanupSharedMapPins record.programID).isOk
    (show Quiet _ w1 from hlog2)
  rw [hshared] at hrel
  obtain ⟨hp2, hm2, hr2⟩ := cleanupSharedMapPins_tables hshared
  have hbytes := sameStore_removeProgramBytecodeDir (e := e) record.programID w3
  have hclean := (mapsUntouched_cleanupEmptyDispatchers _).ok h5
  have hp5 : w'.store.programs = w3.store.programs := hclean.programs.trans (by rw [hbytes])
  have hm5 : w'.store.mapSets = w3.store.mapSets := hclean.mapSets.trans (by rw [hbytes])
  refine ⟨?_, ?_, ?_⟩
  · rw [hp5, hrel.programs, Outcome.state_ok, hp2, hpin.programs]
  · rw [hclean.sharedMapPins, hbytes, hrel.sharedMapPins, Outcome.state_ok, hr2, hpin.sharedMapPins,
      filter_filter]
    simp
  · rw [hp5, hm5, ← hpin.mapSets, ← hm2]
    exact hrel.mapSets

theorem Drops.recorded (h : Drops record s s') (hs : s.SetsRecorded) : s'.SetsRecorded := by
  intro x hx
  have hx0 : x ∈ s.programs := (mem_filter.1 (h.programs ▸ hx)).1
  obtain ⟨r, hr, hid⟩ := mapSetExists_iff.1 (hs x hx0)
  refine mapSetExists_iff.2 ⟨r, ?_, hid⟩
  rcases h.mapSets with ⟨-, heq⟩ | ⟨hno, heq⟩
  · rwa [heq]
  · rw [heq]
    refine mem_filter.2 ⟨hr, decide_eq_true ?_⟩
    rw [hid]
    exact hno x hx

theorem Drops.catalogue (h : Drops record s s')
    (hids : (s.programs.map (·.programID)).Nodup) (hx : x ∈ s.programs)
    (hid : record.programID = x.programID) (hset : record.mapSetID = x.mapSetID)
    (hlinks : s'.linkSet = sweep e [x.programID] s.linkSet) :
    s'.catalogue = s.catalogue.delete e [x.programID] := by
  refine Catalogue.ext ?_ ?_ ?_ hlinks
  · change s'.programs = s.programs.filter (·.programID ∉ [x.programID])
    simp only [h.programs, hid, mem_singleton]
  · change s'.mapSets = s.mapSets.filter fun r => KeepsSet s.programs [x.programID] r.id
    -- the only set that can go is that of the program
    have hother : ∀ r : MapSetRow, r.id ≠ x.mapSetID → KeepsSet s.programs [x.programID] r.id := by
      intro r hne
      refine .inl fun y hy hyr hmem => hne ?_
      rw [← hyr, Table.eq_of_key hids hy hx (mem_singleton.1 hmem)]
    have husers : (∃ y ∈ s'.programs, y.mapSetID = x.mapSetID) ↔
        KeepsSet s.programs [x.programID] x.mapSetID := by
      simp only [KeepsSet, h.programs, hid, mem_filter, mem_singleton, decide_eq_true_eq]
      constructor
      · rintro ⟨y, ⟨hy, hne⟩, hset⟩
        exact .inr ⟨y, hy, hset, hne⟩
      · rintro (hno | ⟨y, hy, hset, hne⟩)
        · exact absurd rfl (hno x hx rfl)
        · exact ⟨y, ⟨hy, hne⟩, hset⟩
    have hsets := h.mapSets
    rw [hset] at hsets
    rcases hsets with ⟨huser, heq⟩ | ⟨hno, heq⟩
    · rw [heq, eq_comm, filter_eq_self]
      intro r _
      by_cases hr : r.id = x.mapSetID
      · exact decide_eq_true (hr ▸ husers.1 huser)
      · exact decide_eq_true (hother r hr)
    · rw [heq]
      refine filter_congr fun r _ => decide_eq_decide.2 ⟨hother r, fun hkeep hr => ?_⟩
      rw [hr] at hkeep
      obtain ⟨y, hy, hys⟩ := husers.2 hkeep
      exact hno y hy hys
  · change s'.sharedMapPins = s.sharedMapPins.filter (·.programID ∉ [x.programID])
    simp only [h.sharedMapPins, hid, mem_singleton]

/-! ## The deletion of one program -/

theorem Trims.keeps_data (h : Trims p s s') (hs : s.Consistent) {l : LinkRow} (hl : l ∈ s.links)
    (hp : l.programID ≠ p) : s.linkData l ∈ s'.linkSet := by
  have hs' := h.consistent hs
  by_cases hkind : l.kind = .xdp ∨ l.kind = .tc
  · obtain ⟨y, hy, rfl⟩ := exists_memberRow_of_link hs hl hkind
    have hy' := h.member hs y hy hp
    rw [linkData_member hs hy, ← linkData_member hs' hy']
    exact mem_linkSet hy'.link
  · have hl' := h.plain hs l hl hkind hp
    rw [linkData_plain hs hl hkind, ← linkData_plain hs' hl' hkind]
    exact mem_linkSet hl'

theorem Trims.linkSet (h : Trims p s s') (hs : s.Consistent)
    (hno : ∀ l ∈ s.links, l.programID ≠ p) : s'.linkSet = s.linkSet := by
  ext n
  constructor
  · rintro ⟨l, hl, rfl⟩
    have hl0 := h.links l hl
    have := linkData_inj (h.consistent hs) (mem_linkSet hl) (h.keeps_data hs hl0 (hno l hl0)) rfl
    rw [this]
    exact mem_linkSet hl0
  · rintro ⟨l, hl, rfl⟩
    exact h.keeps_data hs hl (hno l hl)

theorem mapsUntouched_detachEach (links : List LinkRecord) :
    Keeps MapsUntouched (detachEach e links) :=
  Keeps.forEach fun link _ => (mapsUntouched_detach link.id).mapErr

/-- A deletion that succeeds detaches the links of the program; what follows finds none. -/
theorem detachAndUnload_eq_ok (hs : w.store.Consistent) (h : detachAndUnload e p w = .ok () w') :
    ∃ w1 record, w1.store.linkSet = sweep e [p] w.store.linkSet ∧ w1.store.Consistent ∧
      MapsUntouched w w1 ∧ Logs w w1 ∧ w1.store.getProgram p = .ok record ∧
      (∀ l ∈ w1.store.links, l.programID ≠ p) ∧
      unloadRest e record [] [] true w1 = .ok () w' := by
  obtain ⟨links, w1, h1, g1⟩ := bind_eq_ok.1 h
  obtain ⟨-, hlist, rfl⟩ := query_eq_ok.1 (mapErr_eq_ok.1 h1)
  obtain ⟨_, w2, h2, g2⟩ := bind_eq_ok.1 g1
  have hall := unlinkedAll_of_detachEach hs (agrees_of_list hs hlist) h2
  have hswept := hall.sweep hs hlist
  have hno : ∀ l ∈ w2.store.links, l.programID ≠ p := by
    intro l hl hp
    have hmem := mem_linkSet hl
    rw [hswept] at hmem
    exact hmem.2.1 (mem_singleton.2 hp)
  obtain ⟨record, w3, h3, g3⟩ := bind_eq_ok.1 (mapErr_eq_ok.1 g2)
  obtain ⟨hget, rfl⟩ := getProgram_eq_ok (mapErr_eq_ok.1 h3)
  obtain ⟨links', w4, h4, g4⟩ := bind_eq_ok.1 g3
  obtain ⟨-, hlist', rfl⟩ := query_eq_ok.1 (mapErr_eq_ok.1 h4)
  have hnil : links' = [] := by
    rw [listLinksByProgram_eq_ok hlist', map_eq_nil_iff, filter_eq_nil_iff]
    exact fun l hl => by simpa using hno l hl
  subst hnil
  exact ⟨w4, record, hswept, hall.consistent hs, (mapsUntouched_detachEach links).ok h2,
    (logs_detachEach links).ok h2, hget, hno, g4⟩

theorem sweep_of_no_link (h : ∀ n ∈ s.linkSet, n.programID ≠ p) :
    sweep e [p] s.linkSet = s.linkSet := by
  ext n
  refine ⟨fun hn => hn.1, fun hn => ⟨hn, fun hp => h n hn (mem_singleton.1 hp), ?_⟩⟩
  rintro ⟨-, m, hm, hp, -⟩
  exact h m hm (mem_singleton.1 hp)

theorem exists_getProgram (hs : s.Consistent) (hsets : s.SetsRecorded)
    (hx : x ∈ s.programs) : ∃ record, s.getProgram x.programID = .ok record := by
  obtain ⟨record, hrecord⟩ := exists_programRecord (hsets x hx)
  have hfind : s.programs.find? (fun y => decide (y.programID = x.programID)) = some x :=
    Table.find_of_mem hs.programIDs hx rfl
  exact ⟨record, by rw [Store.getProgram, hfind, Option.bind_some, hrecord]⟩

/-- **With no failing primitive** the deletion of a managed program deletes it from the catalogue,
if no two of its links are on one dispatcher whose recorded namespace is gone. -/
theorem detachAndUnload_catalogue (hs : w.store.Consistent) (hsets : w.store.SetsRecorded)
    (hx : x ∈ w.store.programs) (hone : OnePerGoneDispatcher e w.store x.programID)
    (hq : Quiet (detachAndUnload e x.programID) w) :
    ∃ w', detachAndUnload e x.programID w = .ok () w' ∧ w'.store.Consistent ∧
      w'.store.SetsRecorded ∧ w'.store.catalogue = w.store.catalogue.delete e [x.programID] := by
  obtain ⟨r, hget⟩ := exists_getProgram hs hsets hx
  obtain ⟨w', h, -⟩ := (detachAndUnload_iff hs hget hq).2 hone
  obtain ⟨w1, record, hswept, hs1, hmaps, hlogs, hrecord, hno, hrest⟩ := detachAndUnload_eq_ok hs h
  have hlog : w'.failed = w1.failed := by
    have hfailed : w'.failed = w.failed := by
      unfold Quiet Proc.Quiet at hq
      rwa [h] at hq
    exact (Extends.eq_of_eq hlogs ((journaled_unloadRest [] true).extend.ok hrest) hfailed).2
  have hdrop := drops_unloadRest hrest hlog
  obtain ⟨y, hy, hyid, hrow⟩ := getProgram_rows hrecord
  rw [hmaps.programs] at hy
  obtain rfl := Table.eq_of_key hs.programIDs hy hx hyid
  have hrid : record.programID = y.programID := by
    obtain ⟨ms, -, -, rfl⟩ := programRecord_eq_some hrow
    rfl
  have htrim : Trims record.programID w1.store w'.store := (trims_unloadRest [] true).ok hrest
  have hlinks : w'.store.linkSet = sweep e [y.programID] w.store.linkSet := by
    rw [htrim.linkSet hs1 (hrid ▸ hno), hswept]
  have hdrop' : Drops record w.store w'.store := by
    refine ⟨hmaps.programs ▸ hdrop.programs, hmaps.sharedMapPins ▸ hdrop.sharedMapPins, ?_⟩
    rw [← hmaps.mapSets]
    exact hdrop.mapSets
  exact ⟨w', h, htrim.consistent hs1, hdrop'.recorded hsets,
    hdrop'.catalogue hs.programIDs hy hrid (mapSetID_of_record hrow) hlinks⟩

end Bpfman
