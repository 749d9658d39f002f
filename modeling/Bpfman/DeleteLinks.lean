import Bpfman.Catalogue

/-!
# Deleting links

`DeleteLinks` without `Recursive`: each link of the list is detached, and a program is unloaded once
the last of its links is. The loop is described by `Progress`: after the links `done`, the store has
lost these links and the programs all of whose links are among them, and the batch has recorded each
of them once. `deleteBatchLink_progress` is the step, `deleteEachLink_progress` the run.
-/

namespace Bpfman

open Fallible Proc List Store

variable {e : Env} {w w' : World} {s s₀ : Store} {p : ProgramID} {id : LinkID}

variable {l l0 : LinkRow}
  {done ids : List LinkID} {batch : DeleteBatch}

/-! ## Orphaned programs -/

/-- The program has a link among `ids`, and no other link. -/
def Orphaned (s : Store) (ids : List LinkID) (p : ProgramID) : Prop :=
  (∃ l ∈ s.links, l.programID = p ∧ l.id ∈ ids) ∧ ∀ l ∈ s.links, l.programID = p → l.id ∈ ids

instance (s : Store) (ids : List LinkID) (p : ProgramID) : Decidable (Orphaned s ids p) :=
  inferInstanceAs (Decidable (_ ∧ _))

theorem orphaned_congr {ids ids' : List LinkID} (h : ∀ id, id ∈ ids ↔ id ∈ ids') :
    Orphaned s ids p ↔ Orphaned s ids' p := by
  unfold Orphaned
  simp only [h]

theorem orphaned_cons (hs : s.Consistent) (hl : l ∈ s.links) :
    Orphaned s (l.id :: done) p ↔
      Orphaned s done p ∨ (p = l.programID ∧ Orphaned s (l.id :: done) l.programID) := by
  constructor
  · rintro ⟨⟨l', hl', hp, hmem⟩, hall⟩
    by_cases heq : p = l.programID
    · exact .inr ⟨heq, heq ▸ ⟨⟨l', hl', hp, hmem⟩, hall⟩⟩
    · -- another program's links are not the one just added
      have hne : ∀ l' ∈ s.links, l'.programID = p → l'.id ≠ l.id := by
        intro l' hl' hp hid
        rw [Table.eq_of_key hs.linkIDs hl' hl hid] at hp
        exact heq hp.symm
      refine .inl ⟨⟨l', hl', hp, (mem_cons.1 hmem).resolve_left (hne l' hl' hp)⟩, ?_⟩
      intro l'' hl'' hp''
      exact (mem_cons.1 (hall l'' hl'' hp'')).resolve_left (hne l'' hl'' hp'')
  · rintro (⟨⟨l', hl', hp, hmem⟩, hall⟩ | ⟨rfl, h⟩)
    · exact ⟨⟨l', hl', hp, mem_cons_of_mem _ hmem⟩,
        fun l'' hl'' hp'' => mem_cons_of_mem _ (hall l'' hl'' hp'')⟩
    · exact h

/-! ## The log -/

theorem logs_getLink (id : LinkID) : Keeps Logs (getLink e id) := logs_query.mapErr

theorem logs_deleteIfOrphaned (deps : Dependents) (recursive : Bool) (p : ProgramID)
    (batch : DeleteBatch) : Keeps Logs (deleteIfOrphaned e deps recursive p batch) :=
  keeps_deleteIfOrphaned logs_detachAndUnload logs_listLinksByProgram deps recursive p batch

theorem logs_deleteFoundLink (deps : Dependents) (recursive : Bool) (id : LinkID)
    (batch : DeleteBatch) (link : LinkRecord) :
    Keeps Logs (deleteFoundLink e deps recursive id batch link) :=
  keeps_deleteFoundLink logs_detachAndUnload logs_listLinksByProgram logs_detach deps recursive id
    batch link

theorem logs_deleteBatchLink (deps : Dependents) (recursive : Bool) (id : LinkID)
    (batch : DeleteBatch) : Keeps Logs (deleteBatchLink e deps recursive id batch) :=
  keeps_deleteBatchLink logs_detachAndUnload logs_listLinksByProgram logs_detach logs_getLink deps
    recursive id batch

theorem logs_deleteEachLink (deps : Dependents) (recursive : Bool) (ids : List LinkID)
    (batch : DeleteBatch) : Keeps Logs (deleteEachLink e deps recursive ids batch) :=
  keeps_deleteEachLink logs_detachAndUnload logs_listLinksByProgram logs_detach logs_getLink deps
    recursive ids batch

/-! ## The step -/

/-- What is left of the store `s₀` once the links `done` are deleted, and what the batch
recorded. -/
structure Progress (s₀ : Store) (done : List LinkID) (batch : DeleteBatch) (s : Store) : Prop where
  consistent : s.Consistent
  recorded : s.SetsRecorded
  links : s.linkSet = {n ∈ s₀.linkSet | n.id ∉ done}
  programs : s.programs = s₀.programs.filter fun x => ¬ Orphaned s₀ done x.programID
  removedLinks : ∀ id, id ∈ batch.removedLinks ↔ id ∈ done
  removedPrograms : ∀ p, p ∈ batch.removedPrograms ↔ Orphaned s₀ done p
  once : batch.removedPrograms.Nodup

/-- The recorded namespaces of the links are there. -/
def LiveLinks (e : Env) (s : Store) (ids : List LinkID) : Prop :=
  ∀ n ∈ s.linkSet, n.id ∈ ids → ¬ n.gone e

theorem no_link_iff (hlinks : s.linkSet = {n ∈ s₀.linkSet | n.id ∉ done})
    (hl : l ∈ s₀.links) (hdone : l.id ∈ done) :
    (∀ l' ∈ s.links, l'.programID ≠ l.programID) ↔ Orphaned s₀ done l.programID := by
  constructor
  · intro hno
    refine ⟨⟨l, hl, rfl, hdone⟩, fun l' hl' hp => ?_⟩
    by_contra hnot
    obtain ⟨l'', hl'', hdata⟩ : s₀.linkData l' ∈ s.linkSet := by
      rw [hlinks]
      exact ⟨mem_linkSet hl', hnot⟩
    exact hno l'' hl'' ((congrArg LinkData.programID hdata).trans hp)
  · rintro ⟨-, hall⟩ l' hl' hp
    have hmem := mem_linkSet hl'
    rw [hlinks] at hmem
    obtain ⟨⟨l'', hl'', hdata⟩, hnot⟩ := hmem
    refine hnot ?_
    rw [← hdata]
    exact hall l'' hl'' ((congrArg LinkData.programID hdata).trans hp)

theorem Store.getLink_programID {record : LinkRecord} (h : s.getLink id = .ok record) :
    ∃ l ∈ s.links, l.id = id ∧ record.programID = l.programID := by
  cases hf : s.links.find? (fun l => decide (l.id = id)) with
  | none => simp [getLink, hf] at h
  | some l =>
    obtain ⟨hl, hid⟩ := Table.mem_of_find hf
    rw [getLink_of_find hf] at h
    obtain ⟨details, -, hrec⟩ := except_bind_eq_ok.1 h
    cases hrec
    exact ⟨l, hl, hid, rfl⟩

theorem getLink_of_quiet (hs : w.store.Consistent) (hl : l ∈ w.store.links)
    (hq : Quiet (getLink e l.id) w) :
    ∃ record, getLink e l.id w = .ok record w ∧ record.programID = l.programID := by
  obtain ⟨record, hget, hok⟩ := query_of_quiet hq.of_mapErr fun _ => isNotFound_getLink hs hl
  refine ⟨record, mapErr_eq_ok.2 hok, ?_⟩
  obtain ⟨l', hl', hid, hp⟩ := getLink_programID hget
  rw [hp, Table.eq_of_key hs.linkIDs hl' hl hid]

/-- What the deletion of a program without links does to the store. -/
structure Deletes (p : ProgramID) (s s' : Store) : Prop where
  consistent : s'.Consistent
  recorded : s'.SetsRecorded
  links : s'.linkSet = s.linkSet
  programs : s'.programs = s.programs.filter (·.programID ≠ p)

/-- **With no failing primitive** the deletion of a program without links succeeds and removes the
program only. -/
theorem detachAndUnload_deletes (hs : w.store.Consistent) (hsets : w.store.SetsRecorded)
    {x : ProgramRow} (hx : x ∈ w.store.programs) (hxp : x.programID = p)
    (hno : ∀ l ∈ w.store.links, l.programID ≠ p) (hq : Quiet (detachAndUnload e p) w) :
    ∃ w', detachAndUnload e p w = .ok () w' ∧ Deletes p w.store w'.store := by
  subst hxp
  have hone : OnePerGoneDispatcher e w.store x.programID := fun key y hy _ _ hyp =>
    absurd hyp (hno _ ((mem_memberRows hs).1 hy).1.link)
  obtain ⟨w', h, hs', hsets', hcat⟩ := detachAndUnload_catalogue hs hsets hx hone hq
  refine ⟨w', h, hs', hsets', ?_, ?_⟩
  · refine (congrArg Catalogue.links hcat).trans (sweep_of_no_link ?_)
    rintro n ⟨l, hl, rfl⟩
    exact hno l hl
  · refine (congrArg Catalogue.programs hcat).trans (filter_congr fun y _ => ?_)
    simp

/-- **With no failing primitive** a program is deleted if it has no link, and left alone
otherwise. -/
theorem deleteIfOrphaned_spec (hs : w.store.Consistent) (hsets : w.store.SetsRecorded)
    {x : ProgramRow} (hx : x ∈ w.store.programs) (hxp : x.programID = p)
    (hq : Quiet (deleteIfOrphaned e [] false p batch) w) (hnew : p ∉ batch.removedPrograms) :
    ((∃ l ∈ w.store.links, l.programID = p) ∧
        deleteIfOrphaned e [] false p batch w = .ok (batch, none) w) ∨
      ((∀ l ∈ w.store.links, l.programID ≠ p) ∧
        ∃ w', Deletes p w.store w'.store ∧ deleteIfOrphaned e [] false p batch w =
          .ok (⟨p :: batch.removedPrograms, batch.removedLinks⟩, none) w') := by
  -- the listing
  have hlist : Quiet (listLinksByProgram e p) w := by
    refine (hq.left (logs_listLinksByProgram p).mapErr.attempt fun r => ?_).of_attempt.of_mapErr
    cases r with
    | error err => exact Proc.Keeps.pure _
    | ok links => exact Proc.Keeps.ite ((keeps_deleteProgram logs_detachAndUnload [] false _ p
        batch).bind fun _ => Proc.Keeps.pure _) (Proc.Keeps.pure _)
  have hread := listLinksByProgram_of_quiet hlist
  have hrest : deleteIfOrphaned e [] false p batch w =
      (if ((w.store.links.filter (·.programID = p)).map w.store.listRecord).length = 0 then
        deleteTarget e p batch >>= fun r =>
          pure (r.1, r.2.map (.wrap s!"delete orphaned program {p}"))
      else pure (batch, none) : M (DeleteBatch × Option Err)) w := by
    simp only [deleteIfOrphaned, deleteProgram, attempt, bind_apply, mapErr, hread,
      if_neg hnew, length_nil, Bool.false_eq_true, if_false]
  by_cases hno : ∀ l ∈ w.store.links, l.programID ≠ p
  · refine .inr ⟨hno, ?_⟩
    have hnil : w.store.links.filter (fun l => decide (l.programID = p)) = [] :=
      filter_eq_nil_iff.2 fun l hl => by simpa using hno l hl
    rw [hnil, map_nil, if_pos length_nil] at hrest
    have hquiet : Quiet (detachAndUnload e p) w := by
      unfold Quiet Proc.Quiet at hq
      rw [hrest] at hq
      exact quiet_detachAndUnload
        (Proc.Quiet.left hq (keeps_deleteTarget logs_detachAndUnload p batch)
        fun _ => Proc.Keeps.pure _)
    obtain ⟨w', h, hdel⟩ := detachAndUnload_deletes hs hsets hx hxp hno hquiet
    refine ⟨w', hdel, ?_⟩
    obtain ⟨links, ⟨w1, hlinks⟩, htarget⟩ := deleteTarget_of_ok batch h
    rw [hread, hnil, map_nil] at hlinks
    obtain ⟨rfl, -⟩ := Outcome.ok.inj hlinks
    rw [hrest, bind_of_ok htarget]
    rfl
  · refine .inl ⟨by simpa using hno, ?_⟩
    have hne : ((w.store.links.filter (·.programID = p)).map w.store.listRecord).length ≠ 0 := by
      simpa using hno
    rw [hrest, if_neg hne]
    rfl

theorem Progress.congr {done' : List LinkID} (h : Progress s₀ done batch s)
    (heq : ∀ id, id ∈ done ↔ id ∈ done') : Progress s₀ done' batch s where
  consistent := h.consistent
  recorded := h.recorded
  links := by simp only [h.links, heq]
  programs := by simp only [h.programs, orphaned_congr heq]
  removedLinks id := (h.removedLinks id).trans (heq id)
  removedPrograms p := (h.removedPrograms p).trans (orphaned_congr heq)
  once := h.once

theorem Progress.link (h : Progress s₀ done batch s) (hl0 : l0 ∈ s₀.links)
    (hnot : l0.id ∉ done) : ∃ l ∈ s.links, s.linkData l = s₀.linkData l0 := by
  have hmem : s₀.linkData l0 ∈ s.linkSet := by
    rw [h.links]
    exact ⟨mem_linkSet hl0, hnot⟩
  exact hmem

/-- **The step**, for a link whose record names the program: the link is deleted, and the program if
no link of it is left. -/
theorem deleteFoundLink_progress (h0 : s₀.Consistent) (h : Progress s₀ done batch w.store)
    (hl0 : l0 ∈ s₀.links) (hnot : l0.id ∉ done) (hlive : LiveLinks e s₀ [l0.id])
    {record : LinkRecord} (hrp : record.programID = l0.programID)
    (hq : Quiet (deleteFoundLink e [] false l0.id batch record) w) :
    ∃ batch' w', deleteFoundLink e [] false l0.id batch record w = .ok (batch', none) w' ∧
      Progress s₀ (l0.id :: done) batch' w'.store := by
  obtain ⟨l, hl, hdata⟩ := h.link hl0 hnot
  have hid : l.id = l0.id := congrArg LinkData.id hdata
  have hprog : l.programID = l0.programID := congrArg LinkData.programID hdata
  unfold deleteFoundLink at hq ⊢
  rw [hrp] at hq ⊢
  -- the detach
  obtain ⟨hq3, hnext⟩ := hq.attempt_bind (logs_detach l0.id).mapErr fun r => by
    cases r with
    | error err => exact .pure _
    | ok u => exact logs_deleteIfOrphaned _ _ _ _
  have hlive' : ¬ (w.store.linkData l).gone e := by
    rw [hdata]
    exact hlive _ (mem_linkSet hl0) (mem_singleton.2 rfl)
  obtain ⟨w1, hdetach, hrem⟩ := detach_removes h.consistent hl hlive' (hid ▸ hq3.of_mapErr)
  rw [hid] at hdetach hrem
  obtain ⟨hq4, hrun⟩ := hnext () w1 (mapErr_eq_ok.2 hdetach)
  have hlinks : w1.store.linkSet = {n ∈ s₀.linkSet | n.id ∉ l0.id :: done} := by
    rw [hrem.links, h.links]
    ext n
    simp only [Set.mem_ofPred_eq, mem_cons, not_or]
    exact ⟨fun ⟨⟨hn, hnd⟩, hne⟩ => ⟨hn, hne, hnd⟩, fun ⟨hn, hne, hnd⟩ => ⟨⟨hn, hnd⟩, hne⟩⟩
  -- the program of the link
  have hq5 : Quiet (deleteIfOrphaned e [] false l0.programID
      { batch with removedLinks := l0.id :: batch.removedLinks }) w1 := hq4
  obtain ⟨x, hx, hxp⟩ := h.consistent.linkProgram l hl
  have hnew : l0.programID ∉ batch.removedPrograms := fun hmem =>
    hnot (((h.removedPrograms _).1 hmem).2 l0 hl0 rfl)
  have hsets : w1.store.SetsRecorded := fun y hy => by
    rw [hrem.programs] at hy
    rw [Store.mapSetExists, hrem.mapSets]
    exact h.recorded y hy
  have hremoved : ∀ id, id ∈ l0.id :: batch.removedLinks ↔ id ∈ l0.id :: done := fun id => by
    rw [mem_cons, mem_cons, h.removedLinks]
  rcases deleteIfOrphaned_spec (x := x) hrem.consistent hsets (hrem.programs ▸ hx)
      (hxp.trans hprog) hq5 hnew with ⟨⟨l', hl', hp'⟩, hlast⟩ | ⟨hno, w', hdel, hlast⟩
  · have hkept : ¬ Orphaned s₀ (l0.id :: done) l0.programID := fun ho =>
      (no_link_iff hlinks hl0 (mem_cons_self ..)).2 ho l' hl' hp'
    have hsame : ∀ q, Orphaned s₀ (l0.id :: done) q ↔ Orphaned s₀ done q := fun q => by
      rw [orphaned_cons h0 hl0]
      exact or_iff_left fun hq => hkept hq.2
    refine ⟨_, w1, hrun.trans hlast, hrem.consistent, hsets, hlinks, ?_, hremoved,
      fun q => ?_, h.once⟩
    · simp only [hrem.programs, h.programs, hsame]
    · rw [hsame]
      exact h.removedPrograms q
  · have horph : Orphaned s₀ (l0.id :: done) l0.programID :=
      (no_link_iff hlinks hl0 (mem_cons_self ..)).1 hno
    have hmore : ∀ q, Orphaned s₀ (l0.id :: done) q ↔ Orphaned s₀ done q ∨ q = l0.programID :=
      fun q => by
        rw [orphaned_cons h0 hl0]
        exact or_congr_right (and_iff_left horph)
    refine ⟨_, w', hrun.trans hlast, hdel.consistent, hdel.recorded, hdel.links.trans hlinks, ?_,
      hremoved, fun q => ?_, nodup_cons.2 ⟨hnew, h.once⟩⟩
    · rw [hdel.programs, hrem.programs, h.programs, filter_filter]
      simp only [hmore, not_or, ne_eq, decide_not, Bool.decide_and, Bool.and_comm]
    · rw [mem_cons, h.removedPrograms, hmore, or_comm]

/-- **The step**: one more link is deleted, and its program if no link of it is left. -/
theorem deleteBatchLink_progress (h0 : s₀.Consistent) (h : Progress s₀ done batch w.store)
    (hl0 : l0 ∈ s₀.links) (hnot : l0.id ∉ done) (hlive : LiveLinks e s₀ [l0.id])
    (hq : Quiet (deleteBatchLink e [] false l0.id batch) w) :
    ∃ batch' w', deleteBatchLink e [] false l0.id batch w = .ok (batch', none) w' ∧
      Progress s₀ (l0.id :: done) batch' w'.store := by
  obtain ⟨l, hl, hdata⟩ := h.link hl0 hnot
  have hid : l.id = l0.id := congrArg LinkData.id hdata
  have hfresh : l0.id ∉ batch.removedLinks := fun hmem => hnot ((h.removedLinks _).1 hmem)
  unfold deleteBatchLink at hq ⊢
  rw [if_neg hfresh] at hq ⊢
  obtain ⟨hq1, hnext⟩ := hq.attempt_bind (logs_getLink l0.id).mapErr fun r => by
    cases r with
    | error err => exact .pure _
    | ok link => exact logs_deleteFoundLink _ _ _ _ link
  obtain ⟨record, hget, hrp⟩ := getLink_of_quiet (e := e) h.consistent hl (hid ▸ hq1.of_mapErr)
  rw [hid] at hget
  obtain ⟨hq2, hrun⟩ := hnext record w (mapErr_eq_ok.2 hget)
  obtain ⟨batch', w', hfound, hp⟩ := deleteFoundLink_progress h0 h hl0 hnot hlive
    (hrp.trans (congrArg LinkData.programID hdata)) hq2
  exact ⟨batch', w', hrun.trans hfound, hp⟩

/-! ## The run -/

/-- **The run**: the links of the list are deleted one by one. -/
theorem deleteEachLink_progress (h0 : s₀.Consistent) :
    ∀ {ids done : List LinkID} {batch : DeleteBatch} {w : World},
      Progress s₀ done batch w.store → (∀ id ∈ ids, ∃ l ∈ s₀.links, l.id = id) →
      LiveLinks e s₀ ids → Quiet (deleteEachLink e [] false ids batch) w →
      ∃ batch' w', deleteEachLink e [] false ids batch w =
          .ok (ids.map fun id => ⟨id, none⟩, batch') w' ∧
        Progress s₀ (ids.reverse ++ done) batch' w'.store
  | [], done, batch, w, h, _, _, _ => ⟨batch, w, rfl, h⟩
  | id :: ids, done, batch, w, h, hex, hlive, hq => by
    have hex' := fun i hi => hex i (mem_cons_of_mem _ hi)
    have hlive' : LiveLinks e s₀ ids := fun d hd hi => hlive d hd (mem_cons_of_mem _ hi)
    have hlogs := fun batch => logs_deleteEachLink (e := e) [] false ids batch
    unfold deleteEachLink at hq ⊢
    by_cases hin : id ∈ batch.removedLinks
    · -- a link deleted before is reported as deleted
      rw [if_pos hin] at hq ⊢
      obtain ⟨batch', w', hrun, hp⟩ := deleteEachLink_progress h0 h hex' hlive'
        (hq.left (hlogs batch) fun _ => .pure _)
      refine ⟨batch', w', bind_of_ok hrun, hp.congr fun i => ?_⟩
      have hdone := (h.removedLinks id).1 hin
      simp only [mem_append, mem_reverse, mem_cons]
      constructor
      · exact Or.imp_left .inr
      · rintro ((rfl | hi) | hi)
        · exact .inr hdone
        · exact .inl hi
        · exact .inr hi
    · rw [if_neg hin] at hq ⊢
      obtain ⟨l0, hl0, rfl⟩ := hex id (mem_cons_self ..)
      have hstep := logs_deleteBatchLink (e := e) [] false l0.id batch
      obtain ⟨hq1, hnext⟩ := hq.split hstep fun r => (hlogs r.1).bind fun _ => .pure _
      obtain ⟨batch1, w1, h1, hp1⟩ := deleteBatchLink_progress h0 h hl0
        (fun hmem => hin ((h.removedLinks _).2 hmem))
        (fun d hd hi => hlive d hd (mem_singleton.1 hi ▸ mem_cons_self ..)) hq1
      obtain ⟨batch', w', hrun, hp⟩ := deleteEachLink_progress h0 hp1 hex' hlive'
        ((hnext h1).left (hlogs batch1) fun _ => .pure _)
      refine ⟨batch', w', (bind_of_ok h1).trans (bind_of_ok hrun), hp.congr fun i => ?_⟩
      simp only [mem_append, mem_reverse, mem_cons]
      exact ⟨by rintro (h | h | h) <;> simp [h], by rintro ((h | h) | h) <;> simp [h]⟩

theorem progress_start (hs : s.Consistent) (hsets : s.SetsRecorded) : Progress s [] {} s where
  consistent := hs
  recorded := hsets
  links := by simp
  programs := by simp [Orphaned]
  removedLinks id := Iff.rfl
  removedPrograms p := by simp [Orphaned]
  once := nodup_nil

/-- **Deleting links when no primitive fails**: every link of the list is reported as deleted; the
links that are gone are those of the list; the programs that are gone are those that had a link in
the list and have none left, and each of them was unloaded once. -/
theorem deleteLinks_exact (hs : w.store.Consistent) (hsets : w.store.SetsRecorded)
    (hex : ∀ id ∈ ids, ∃ l ∈ w.store.links, l.id = id) (hlive : LiveLinks e w.store ids)
    (hq : Quiet (deleteLinksBatch e ids {}) w) :
    ∃ batch w', deleteLinksBatch e ids {} w = .ok (ids.map fun id => ⟨id, none⟩, batch) w' ∧
      w'.store.linkSet = {n ∈ w.store.linkSet | n.id ∉ ids} ∧
      w'.store.programs = w.store.programs.filter (fun x => ¬ Orphaned w.store ids x.programID) ∧
      (∀ p, p ∈ batch.removedPrograms ↔ Orphaned w.store ids p) ∧ batch.removedPrograms.Nodup := by
  have hrun : deleteLinksBatch e ids {} w = deleteEachLink e [] false ids {} w := rfl
  have hq' : Quiet (deleteEachLink e [] false ids {}) w := hq
  obtain ⟨batch, w', h, hp⟩ := deleteEachLink_progress hs (progress_start hs hsets) hex hlive hq'
  have hp' : Progress w.store ids batch w'.store := hp.congr fun i => by simp
  exact ⟨batch, w', hrun.trans h, hp'.links, hp'.programs, hp'.removedPrograms, hp'.once⟩

namespace Sample

/-- Program 2 is attached twice, beside program 1 and, at another hook, program 4. -/
@[irreducible] def mixed : World := attached [xdp 1 [], xdp 2 [], xdp 2 [], tc 4]

theorem mixed_consistent : mixed.store.Consistent := by
  unfold mixed
  exact (inv_run fresh.inv (run_attachAll (by decide +kernel))).store

theorem not_gone {now : Nat} {faults : List Call} (n : LinkData) : ¬ n.gone (env now faults) := by
  rintro ⟨a, -, h⟩
  simp [netnsGone, env] at h

end Sample

/-- Links 1, 3 and 4 are deleted, link 1 is named twice: programs 1 and 4 go, and program 2 stays
with its other link. -/
theorem deleteLinks_exact_sample :
    let e := Sample.env 9 []
    let w := Sample.mixed
    (∃ batch w', deleteLinksBatch e [1, 4, 3, 1] {} w =
        .ok ([1, 4, 3, 1].map fun id => ⟨id, none⟩, batch) w' ∧
      w'.store.linkSet = {n ∈ w.store.linkSet | n.id ∉ [1, 4, 3, 1]} ∧
      w'.store.programs =
        w.store.programs.filter (fun x => ¬ Orphaned w.store [1, 4, 3, 1] x.programID) ∧
      (∀ p, p ∈ batch.removedPrograms ↔ Orphaned w.store [1, 4, 3, 1] p) ∧
      batch.removedPrograms.Nodup) ∧
    Orphaned w.store [1, 4, 3, 1] 1 ∧ ¬ Orphaned w.store [1, 4, 3, 1] 2 ∧
      Orphaned w.store [1, 4, 3, 1] 4 := by
  have hsets : Sample.mixed.store.SetsRecorded := by
    unfold Store.SetsRecorded
    decide +kernel
  have hex : ∀ id ∈ [1, 4, 3, 1], ∃ l ∈ Sample.mixed.store.links, l.id = id := by decide +kernel
  have hq : Quiet (deleteLinksBatch (Sample.env 9 []) [1, 4, 3, 1] {}) Sample.mixed := by
    decide +kernel
  exact ⟨deleteLinks_exact Sample.mixed_consistent hsets hex (fun n _ _ => Sample.not_gone n) hq,
    by decide +kernel⟩

end Bpfman
