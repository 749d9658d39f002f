import Bpfman.Batch
import Bpfman.DeleteProof
import Bpfman.Staffed

/-!
# Every dispatcher keeps a member over a run

A dispatcher loses its last member by a detach, by an unload, and by the cascade of a program record
that is deleted. A detach removes the dispatcher with it and an unload detaches first. The reap of a
load does not: it deletes the records of dead programs and leaves their dispatchers.

* `staffs_detach`, `staffs_unloadProgram` — the operations that take members;
* `staffed_reap` — the reap, where each dispatcher has a member that is not reaped;
* `member_of_run` — whole runs of operations, whichever primitives fail;
* `reap_leaves_empty_dispatcher` — a load that reaps the only member of a dispatcher.
-/

namespace Bpfman

open Fallible Proc List

variable {e : Env} {w w' : World} {s s' : Store} {key : Key} {p : ProgramID} {link : LinkRecord}
  {links : List LinkRecord} {b : Bool} {dead : List ProgramID}

/-! ## Detach -/

theorem staffs_removeEmptyDispatcher (snap : DispatcherSnapshot) :
    Keeps Staffs (removeEmptyDispatcher e snap) := by
  intro w hs
  rcases removeEmptyDispatcher_store (e := e) snap w with h | h
  · rwa [h]
  · exact hs.deleteSnapshot h

/-- **The rebuild of a detach** leaves the dispatcher with a member, or removes it. -/
theorem staffs_rebuildDispatcherForDetach (key : Key) (id : LinkID) :
    Keeps Staffs (rebuildDispatcherForDetach e key id) := by
  rw [rebuildDispatcherForDetach_eq]
  refine staffs_query.mapErr.bind_of (P := DispatcherSnapshot.Fits) ?_ fun snap hfits => ?_
  · intro w1 snap w2 h
    obtain ⟨-, hget, -⟩ := query_eq_ok.1 (mapErr_eq_ok.1 h)
    exact fits_of_read hget
  · by_cases hrem : removesDispatcher e (snap.without id) = true
    · rw [detachFrom, if_pos hrem]
      exact staffs_removeEmptyDispatcher _
    · rw [detachFrom, if_neg hrem]
      refine (Keeps.lift _).mapErr.bind fun cfg => Keeps.bind ?_ fun _ =>
        staffs_dropRevision _ _
      refine staffs_rebuildDispatcher (local_detachPlan ..) (MasksFit.sort fun slot hslot => ?_)
        fun hnil => ?_
      · obtain ⟨m, hm, rfl⟩ := mem_map.1 hslot
        exact hfits m (mem_filter.1 hm).1
      · have hlen := congrArg length hnil
        refine hrem (Bool.or_eq_true_iff.2 (Or.inl (decide_eq_true ?_)))
        simpa [DetachKind.plan, DispatcherSnapshot.slots] using hlen

/-- **A detach** leaves every dispatcher with a member. -/
theorem staffs_detach (id : LinkID) : Keeps Staffs (detach e id) := by
  rw [detach_eq]
  intro w hs
  refine bind_state (Q := fun w' : World => w'.store.Staffed)
    (fun err w' h => (staffs_query.mapErr.err h) hs) fun record w' h => ?_
  obtain ⟨hget, rfl⟩ := getLink_eq_ok h
  rcases getLink_cases hs.consistent hget with
    ⟨l, hl, hid, hkind, ⟨details, rfl⟩, hk⟩ | ⟨m, hm, hid, hrid, -, hk⟩
  · -- a link without a dispatcher is no member
    rw [hk]
    have hkeeps : Keeps (StaffsBut l.id) (do
        detachPin e (Store.linkRecord l (some details))
        deleteLink e l.id) :=
      (staffsBut_of_sameStore (adapts_detachPin _).store).bind fun _ => staffsBut_deleteLink l.id
    exact (hkeeps w' ⟨hs, detail_ne_of_plain hs.consistent hl hkind⟩).1
  · rw [hk]
    exact ((staffs_of_sameStore (adapts_detachPin record).store).bind fun _ =>
      staffs_rebuildDispatcherForDetach _ _) w' hs

/-! ## Unload -/

theorem Unlinked.detail_ne (h : Unlinked e b link s s') (hs : s.Consistent)
    (ha : Agrees s (link :: links)) {d : DetailRow} (hd : d ∈ s'.details) : d.id ≠ link.id := by
  intro hid
  have hkey : ∀ d0 ∈ s.details, d0.id = link.id → extractDispatcherKey link.details = some d0.key :=
    ha.detail link (mem_cons_self ..)
  cases h with
  | kept _ hk h =>
    rw [h] at hd
    exact absurd ((hkey d hd hid).symm.trans hk) (by simp)
  | deleted _ _ l hl hlid hkind h =>
    rw [h] at hd
    exact (Store.mem_deleteLinks_details.1 hd).2 (mem_singleton.2 hid)
  | detached key hk h =>
    obtain ⟨l, hl, hld, -⟩ := (h.consistent hs).detailLink d hd
    obtain ⟨d0, hd0, hid0, -⟩ := h.detail_of hs hd
    rcases h.links hl with ⟨-, hnot⟩ | ⟨y, -, hne, hyid, -⟩
    · have hd₀k : d0.key = key := Option.some.inj ((hkey d0 hd0 (hid0.trans hid)).symm.trans hk)
      exact hnot (Store.mem_attachPointLinks.2 ⟨d0, hd0, hd₀k, hid0.trans hld.symm⟩)
    · exact hne (hyid.symm.trans (hld.trans hid))

/-- After a loop that reached its end no link of its list is a member. -/
theorem UnlinkedAll.detail_ne (h : UnlinkedAll e b links s s') (hs : s.Consistent)
    (ha : Agrees s links) : ∀ d ∈ s'.details, ∀ link ∈ links, d.id ≠ link.id := by
  -- what one step took is not put back by the steps after it
  have hback : ∀ {links : List LinkRecord} {s s' : Store}, UnlinkedAll e b links s s' →
      s.Consistent → ∀ d ∈ s'.details, ∃ d0 ∈ s.details, d0.id = d.id := by
    intro links s s' h
    induction h with
    | nil => exact fun _ d hd => ⟨d, hd, rfl⟩
    | cons h _ ih =>
      intro hs d hd
      obtain ⟨d1, hd1, hid1⟩ := ih (h.consistent hs) d hd
      obtain ⟨d0, hd0, hid0, -⟩ := h.detail_of hs hd1
      exact ⟨d0, hd0, hid0.trans hid1⟩
  induction h with
  | nil => simp
  | cons h hrest ih =>
    intro d hd link' hlink'
    rcases mem_cons.1 hlink' with rfl | hlink'
    · obtain ⟨d1, hd1, hid1⟩ := hback hrest (h.consistent hs) d hd
      exact hid1 ▸ h.detail_ne hs ha hd1
    · exact ih (h.consistent hs) (ha.unlinked hs h) d hd link' hlink'

theorem staffs_detachAllLinks (links : List LinkRecord) :
    Keeps Staffs (detachAllLinks e links) := by
  have hpin : ∀ pin, Keeps Staffs (detachLink e pin) := fun pin =>
    staffs_of_sameStore (adapts_detachLink pin).store
  induction links with
  | nil => exact .pure _
  | cons link links ih =>
    unfold detachAllLinks
    split
    · exact ih
    · refine (hpin _).mapErr.bind fun _ => ?_
      split
      · exact ih
      · exact (staffs_rebuildDispatcherForDetach _ _).mapErr.bind fun _ =>
          ih.bind fun _ => .pure _

/-- **An unload** detaches the members of its program first, so that the cascade of its record takes
none. -/
theorem staffs_unloadProgram (p : ProgramID) : Keeps Staffs (unloadProgram e p) := by
  intro w hs
  refine bind_state (Q := fun w' : World => w'.store.Staffed)
    (fun err w' h => (staffs_query.mapErr.mapErr.err h) hs) fun record w1 h1 => ?_
  obtain ⟨hp, rfl⟩ := getProgram_eq_ok (mapErr_eq_ok.1 h1)
  obtain ⟨-, -, -, hrid, -⟩ := Store.getProgram_eq_ok hp
  refine bind_state (Q := fun w' : World => w'.store.Staffed)
    (fun err w' h => (staffs_query.mapErr.err h) hs) fun links w2 h2 => ?_
  obtain ⟨-, hlist, rfl⟩ := query_eq_ok.1 (mapErr_eq_ok.1 h2)
  refine bind_state (Q := fun w' : World => w'.store.Staffed)
    (fun err w' h => ((staffs_detachAllLinks links).mapErr.err h) hs) fun keys w3 h3 => ?_
  have hs3 : w3.store.Staffed := ((staffs_detachAllLinks links).mapErr.ok h3) hs
  have hpend := pending_of_list hs.consistent hlist
  have hall := unlinkedAll_of_detachAllLinks (fun l hl key hk => (hpend.member l hl key hk).1)
    (mapErr_eq_ok.1 h3)
  have ht : Trims p w3.store (unloadRest e record links keys true w3).state.store :=
    hrid ▸ trims_unloadRest keys true w3
  refine Store.Staffed.trims hs3.consistent ht fun r hr => ?_
  obtain ⟨d, hd, hk⟩ := hs3.inhabited r hr
  obtain ⟨y, hy, rfl⟩ := Store.exists_memberRow hs3.consistent hd
  refine ⟨y, hy, hk, fun hyp => ?_⟩
  -- a member of the program was listed, and taken down
  obtain ⟨l, hl, hid, hlp⟩ := hall.link_of hs.consistent hy.link
  have hlisted : w2.store.listRecord l ∈ links := by
    rw [listLinksByProgram_eq_ok hlist]
    exact mem_map_of_mem (mem_filter.2 ⟨hl, decide_eq_true (hlp.trans hyp)⟩)
  exact hall.detail_ne hs.consistent (agrees_of_list hs.consistent hlist) _ hd _ hlisted
    (hy.link_id.symm.trans hid.symm)

/-! ## Delete -/

theorem staffs_detachAndUnload (p : ProgramID) : Keeps Staffs (detachAndUnload e p) :=
  staffs_query.mapErr.bind fun _ =>
    .bind (.forEach fun link _ => (staffs_detach link.id).mapErr) fun _ =>
      (staffs_unloadProgram p).mapErr

/-! ## The batch of a load -/

variable {i : Nat} {spec : LoadSpec} {specs : List LoadSpec} {sc : Scope}
  {items : List (ProgramRecord × List String)}

/-- Only references to shared maps change in the tables. -/
structure SameTables (s s' : Store) : Prop where
  programs : s'.programs = s.programs
  links : s'.links = s.links
  details : s'.details = s.details
  dispatchers : s'.dispatchers = s.dispatchers

theorem Store.Staffed.sameTables (h : s.Staffed) (ht : SameTables s s') : s'.Staffed :=
  h.of_tables ht.links ht.details ht.dispatchers (ht.programs ▸ h.consistent.programIDs)
    fun x hx => ⟨x, ht.programs ▸ hx, rfl⟩

theorem Touched.sameTables (h : Touched sc w w') : SameTables w.store w'.store := by
  obtain ⟨refs, -, heq⟩ := h.refs
  constructor <;> rw [heq]

theorem Touched.staffs (h : Touched sc w w') : Staffs w w' := fun hs => hs.sameTables h.sameTables

theorem staffs_loadOne : Keeps Staffs (loadOne e i spec) :=
  touches_loadOne_wide.mono fun _ _ => Touched.staffs

theorem LoadedAll.staffs (h : LoadedAll e i specs w items w') : Staffs w w' :=
  h.lift fun _ _ _ _ _ _ => staffs_loadOne.ok

/-- The upsert of a program keeps the ids of the others. -/
theorem Store.Staffed.upsertProgram {row : ProgramRow} (h : s.Staffed)
    (hup : s.upsertProgram row = .ok s') : s'.Staffed := by
  unfold Store.upsertProgram at hup
  split at hup
  · cases hup
    split
    · have hids : ∀ x : ProgramRow,
          (if x.programID = row.programID then row else x).programID = x.programID := by
        intro x
        split
        · rename_i hx
          exact hx.symm
        · rfl
      refine h.of_tables rfl rfl rfl ?_ fun x hx => ⟨_, mem_map_of_mem hx, hids x⟩
      rw [map_map]
      exact (map_congr_left fun x _ => hids x) ▸ h.consistent.programIDs
    · rename_i hany
      refine h.of_tables rfl rfl rfl ?_ fun x hx => ⟨x, mem_append_left _ hx, rfl⟩
      rw [map_append, nodup_append]
      refine ⟨h.consistent.programIDs, by simp, fun a ha b hb heq => hany ?_⟩
      obtain ⟨x, hx, rfl⟩ := mem_map.1 ha
      rw [map_singleton, mem_singleton] at hb
      exact any_eq_true.2 ⟨x, hx, decide_eq_true (heq.trans hb)⟩
  · cases hup

theorem Store.Staffed.save {record : ProgramRecord} (h : s.Staffed)
    (hsave : s.save record = .ok s') : s'.Staffed := by
  obtain ⟨s1, hup, ⟨-, -, rfl⟩ | ⟨rfl, -⟩⟩ := save_steps hsave
  · have hset : Store.Staffed
        { s with mapSets := s.mapSets ++ [⟨record.programID, record.mapsDir⟩] } :=
      h.sameTables ⟨rfl, rfl, rfl, rfl⟩
    exact hset.upsertProgram hup
  · exact h.upsertProgram hup

theorem staffs_commitItems (h : forEach (fun it => commitItem e it.1 it.2) items w = .ok () w') :
    Staffs w w' := by
  induction items generalizing w with
  | nil =>
    cases h
    exact refl_of Staffs _
  | cons it items ih =>
    obtain ⟨u, w1, h1, h⟩ := bind_eq_ok.1 h
    obtain ⟨s', hs', rfl⟩ := commitItem_saved h1
    exact fun hs => ih h ((hs.save hs').sameTables ⟨rfl, rfl, rfl, rfl⟩)

/-- **The batch of a load** adds programs, and leaves links and dispatchers alone. -/
theorem staffs_loadBody (specs : List LoadSpec) : Keeps Staffs (loadBody e specs) := by
  intro w
  cases h : loadBody e specs w with
  | ok records w' =>
    obtain ⟨items, w1, hall, -, htx⟩ := loadBody_eq_ok h
    exact trans_of Staffs hall.staffs (staffs_commitItems (commitBatch_items htx))
  | err err w' =>
    exact loadBody_err_lift (fun _ _ _ _ w1 _ _ => staffs_loadOne w1)
      (fun _ _ _ => touched_unloadLoaded_wide.mono fun _ _ => Touched.staffs)
      (fun _ _ => staffs_of_store_eq rfl) h

/-! ## The reap -/

/-- The tables are consistent and every dispatcher has a member of a program outside `dead`. -/
structure Store.StaffedBeside (dead : List ProgramID) (s : Store) : Prop where
  consistent : s.Consistent
  member : ∀ r ∈ s.dispatchers, ∃ y, s.IsMemberRow y ∧ y.detail.key = r.key ∧
    y.link.programID ∉ dead

theorem Store.StaffedBeside.staffed (h : s.StaffedBeside dead) : s.Staffed := by
  refine ⟨h.consistent, fun r hr => ?_⟩
  obtain ⟨y, hy, hk, -⟩ := h.member r hr
  exact ⟨y.detail, hy.detail, hk⟩

theorem Store.StaffedBeside.trims (h : s.StaffedBeside dead)
    (hp : p ∈ dead) (ht : Trims p s s') : s'.StaffedBeside dead := by
  refine ⟨ht.consistent h.consistent, fun r hr => ?_⟩
  obtain ⟨y, hy, hk, hne⟩ := h.member r (ht.dispatchers r hr)
  exact ⟨y, ht.member h.consistent y hy fun heq => hne (heq ▸ hp), hk, hne⟩

/-- An operation that leaves every dispatcher a member of a program outside `dead`. -/
def StaffsBeside (dead : List ProgramID) (w w' : World) : Prop :=
  w.store.StaffedBeside dead → w'.store.StaffedBeside dead

instance {dead : List ProgramID} : Std.Refl (StaffsBeside dead) := ⟨fun _ => id⟩

instance {dead : List ProgramID} : IsTrans World (StaffsBeside dead) :=
  ⟨fun _ _ _ h h' hs => h' (h hs)⟩

/-- Reaping a dead program takes no member of another. -/
theorem staffsBeside_executeReap (hp : p ∈ dead) :
    Keeps (StaffsBeside dead) (executeReapDeadProgramRecord e p) := by
  refine keeps_executeReap (fun w w' ht h => ?_) fun _ w s hdel h =>
    h.trims hp (trims_deleteProgram hdel)
  have htab := ht.sameTables
  exact h.trims hp (trims_of_eq htab.programs htab.links htab.details htab.dispatchers)

/-- Every dispatcher has a member of a program that the reap leaves. -/
def SparesMembers (e : Env) (s : Store) : Prop :=
  ∀ r ∈ s.dispatchers, ∃ d ∈ s.details, d.key = r.key ∧
    ∃ l ∈ s.links, l.id = d.id ∧ l.programID ∉ planReap s.listPrograms e.live

instance (e : Env) (s : Store) : Decidable (SparesMembers e s) := by
  unfold SparesMembers
  infer_instance

theorem SparesMembers.staffedBeside (h : SparesMembers e s) (hs : s.Consistent) :
    s.StaffedBeside (reaped e s) := by
  refine ⟨hs, fun r hr => ?_⟩
  obtain ⟨d, hd, hk, l, hl, hid, hne⟩ := h r hr
  obtain ⟨y, hy, rfl⟩ := Store.exists_memberRow hs hd
  refine ⟨y, hy, hk, fun hdead => hne ?_⟩
  rw [← Table.eq_of_key hs.linkIDs hy.link hl (hy.link_id.trans hid.symm)]
  unfold reaped at hdead
  split at hdead
  · cases hdead
  · exact hdead

/-- **The reap of a load**, where it leaves every dispatcher a member. -/
theorem staffed_reap (hs : w.store.Staffed) (hsp : SparesMembers e w.store) :
    (reapDeadProgramRecords e w).state.store.Staffed :=
  have hkeeps : StaffsBeside (reaped e w.store) w (reapDeadProgramRecords e w).state :=
    keeps_reap (fun _ _ h => h) fun _ hid => staffsBeside_executeReap hid
  (hkeeps (hsp.staffedBeside hs.consistent)).staffed

theorem staffed_load (hs : w.store.Staffed) (hsp : SparesMembers e w.store) :
    (load e specs w).state.store.Staffed := by
  rcases load_cases e specs w with ⟨-, err, w', h, hw'⟩ | ⟨-, -, h⟩
  · rw [h]
    rcases hw' with rfl | ⟨c, rfl⟩
    · exact hs
    · exact staffs_fail w c hs
  · rw [h]
    exact staffs_loadBody specs _ (staffed_reap hs hsp)

/-! ## Runs -/

/-- The operations of the manager that add or take rows. -/
inductive ManagerOp where
  | load (specs : List LoadSpec)
  | attach (scope : Bool) (spec : AnyAttachSpec)
  | detach (id : LinkID)
  | unload (id : ProgramID)
  | deletePrograms (ids : List ProgramID) (opts : DeleteProgramsOpts)
  | deleteLinks (ids : List LinkID) (opts : DeleteLinksOpts)

namespace ManagerOp

/-- What an operation leaves, whatever it returns. -/
def run (e : Env) : ManagerOp → World → World
  | load specs, w => (Bpfman.load e specs w).state
  | attach scope spec, w => (attachAny e scope spec w).state
  | detach id, w => (Bpfman.detach e id w).state
  | unload id, w => (unloadProgram e id w).state
  | deletePrograms ids opts, w => (Bpfman.deletePrograms e ids opts w).state
  | deleteLinks ids opts, w => (Bpfman.deleteLinks e ids opts w).state

/-- What a load needs of the store it starts from; the other operations need nothing. -/
def Spares (e : Env) : ManagerOp → Store → Prop
  | load _, s => SparesMembers e s
  | _, _ => True

instance (e : Env) (op : ManagerOp) (s : Store) : Decidable (op.Spares e s) := by
  cases op <;> unfold Spares <;> infer_instance

end ManagerOp

/-- Operations one after the other, each in its own environment. -/
def runOps : List (Env × ManagerOp) → World → World
  | [], w => w
  | (e, op) :: ops, w => runOps ops (op.run e w)

/-- Every load of the run starts from a store whose dispatchers it leaves a member. -/
def SparesThroughout : List (Env × ManagerOp) → World → Prop
  | [], _ => True
  | (e, op) :: ops, w => op.Spares e w.store ∧ SparesThroughout ops (op.run e w)

instance decidableSparesThroughout :
    ∀ (ops : List (Env × ManagerOp)) (w : World), Decidable (SparesThroughout ops w)
  | [], _ => inferInstanceAs (Decidable True)
  | (e, op) :: ops, w =>
    have := decidableSparesThroughout ops (op.run e w)
    inferInstanceAs (Decidable (op.Spares e w.store ∧ SparesThroughout ops (op.run e w)))

theorem staffed_run {op : ManagerOp} (hs : w.store.Staffed) (hsp : op.Spares e w.store) :
    (op.run e w).store.Staffed := by
  cases op with
  | load specs => exact staffed_load hs hsp
  | attach scope spec => exact staffs_attachAny scope spec w hs
  | detach id => exact staffs_detach id w hs
  | unload id => exact staffs_unloadProgram id w hs
  | deletePrograms ids opts =>
    exact keeps_deletePrograms staffs_detachAndUnload (keeps_listPrograms staffs_query) ids
      opts w hs
  | deleteLinks ids opts =>
    exact keeps_deleteLinks staffs_detachAndUnload (fun _ => staffs_query) staffs_detach
      (fun _ => staffs_query.mapErr) (keeps_listPrograms staffs_query) ids opts w hs

theorem staffed_runOps {ops : List (Env × ManagerOp)} (hs : w.store.Staffed)
    (hsp : SparesThroughout ops w) : (runOps ops w).store.Staffed := by
  induction ops generalizing w with
  | nil => exact hs
  | cons x ops ih => exact ih (staffed_run hs hsp.1) hsp.2

/-- **Every dispatcher keeps a member over a run**, whatever the operations return and whichever
primitives fail, if every load starts from a store whose dispatchers it leaves a member. -/
theorem member_of_run {ops : List (Env × ManagerOp)} (hs : w.store.Staffed)
    (hsp : SparesThroughout ops w) :
    ∀ r ∈ (runOps ops w).store.dispatchers, (runOps ops w).store.memberRows r.key ≠ [] := by
  intro r hr hnil
  have hend := staffed_runOps hs hsp
  obtain ⟨d, hd, hk⟩ := hend.inhabited r hr
  obtain ⟨y, hy, rfl⟩ := Store.exists_memberRow hend.consistent hd
  have hmem : y ∈ (runOps ops w).store.memberRows r.key :=
    (Store.mem_memberRows hend.consistent).2 ⟨hy, hk⟩
  rw [hnil] at hmem
  cases hmem

namespace Sample

/-- A program that owns its maps and has none. -/
def plainXDP (name : String) : LoadSpec := ⟨name, .xdp, 0, [], List.nodup_nil, ""⟩

/-- The sample machine after program `p` died. -/
def envWithout (now : Nat) (p : ProgramID) : Env := { env now [] with live := fun id => id != p }

/-- Load two programs and attach both. -/
def staffing : List (Env × ManagerOp) :=
  [(env 1 [], .load [plainXDP "a", plainXDP "b"]),
    (env 2 [], .attach false (.dispatcher (xdp 100 []))),
    (env 3 [], .attach false (.dispatcher (xdp 101 [])))]

/-- Load a program and attach it, alone on its interface. -/
def lone : List (Env × ManagerOp) :=
  [(env 1 [], .load [plainXDP "a"]), (env 2 [], .attach false (.dispatcher (xdp 100 [])))]

end Sample

open Sample

/-- A load reaps one of two members; the dispatcher keeps the other. -/
theorem member_of_run_sample :
    let ops := staffing ++ [(envWithout 4 100, .load [plainXDP "c"])]
    (runOps ops {}).store.dispatchers.map (·.key) = [xdpKey] ∧
      ∀ r ∈ (runOps ops {}).store.dispatchers, (runOps ops {}).store.memberRows r.key ≠ [] :=
  ⟨by decide +kernel, member_of_run staffed_empty (by decide +kernel)⟩

/-- The only member of a dispatcher dies and the next load, in which nothing fails, reaps its
record: the dispatcher stays without a member. -/
theorem reap_leaves_empty_dispatcher :
    let e := envWithout 3 100
    let w := runOps lone {}
    (load e [plainXDP "b"] w).isOk = true ∧
      (load e [plainXDP "b"] w).state.failed = [] ∧
      (w.store.memberRows xdpKey).length = 1 ∧
      (load e [plainXDP "b"] w).state.store.dispatchers.map (·.key) = [xdpKey] ∧
      (load e [plainXDP "b"] w).state.store.memberRows xdpKey = [] := by
  decide +kernel

end Bpfman
