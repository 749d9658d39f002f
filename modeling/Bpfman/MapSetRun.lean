import Bpfman.MapSets

/-!
# Runs and map sets

* `SetsInv.reap` — a reap that leaves every set a user keeps the sets matched with their users;
* `SetsInv.loadBody` — so does a batch without a failed primitive;
* `mapSets_of_run` — the sets match their users after every run, and a set goes with its last user;
* `reap_leaves_map_set` — a reap that takes the last user of a set leaves the set recorded.
-/

namespace Bpfman

open Fallible Proc List Store

variable {e : Env} {w w' : World} {id s : ProgramID} {i : Nat} {spec : LoadSpec} {specs : List
  LoadSpec} {items : List (ProgramRecord × List String)} {st : Store}

/-! ## The reaper -/

/-- The reap of a load leaves every set a user. -/
def SparesSets (e : Env) (st : Store) : Prop :=
  ∀ p ∈ st.programs, p.programID ∈ reaped e st →
    ∃ q ∈ st.programs, q.mapSetID = p.mapSetID ∧ q.programID ∉ reaped e st

theorem exists_programRecord {q : ProgramRow}
    (h : st.mapSetExists q.mapSetID = true) : ∃ record, st.programRecord q = some record := by
  obtain ⟨r, hr, hid⟩ := mapSetExists_iff.1 h
  obtain ⟨ms, hms⟩ := Option.isSome_iff_exists.1
    (find?_isSome (p := fun ms : MapSetRow => decide (ms.id = q.mapSetID)).2
      ⟨r, hr, decide_eq_true hid⟩)
  exact ⟨_, by rw [programRecord, hms]; rfl⟩

/-- A program that is reaped takes the programs that joined its maps along. -/
theorem reaped_dependent (hid : id ∈ reaped e st) {q : ProgramRow}
    (hq : q ∈ st.programs) (hset : q.mapSetID = id) (hrec : st.mapSetExists q.mapSetID = true) :
    q.programID ∈ reaped e st := by
  by_cases hself : q.programID = id
  · rwa [hself]
  · unfold reaped at hid ⊢
    split at hid
    · cases hid
    · rename_i hf
      obtain ⟨record, hrecord⟩ := exists_programRecord hrec
      have hmem : record ∈ st.listPrograms := mem_filterMap.2 ⟨q, hq, hrecord⟩
      obtain ⟨ms, -, -, rfl⟩ := programRecord_eq_some hrecord
      rw [if_neg hf]
      refine planned_dependent hid hmem ?_
      rw [if_neg fun heq => hself (heq.symm.trans hset), hset]

/-- A program that is reaped has no set of its own, if every set keeps a user. -/
theorem SetsInv.no_set_of_reaped (h : SetsInv w) (hsp : SparesSets e w.store)
    (hid : id ∈ reaped e w.store) : .mapDir id ∉ w.dirs := by
  intro hdir
  obtain ⟨r, hr, rfl⟩ := mapSetExists_iff.1 ((h.dir id).1 hdir)
  obtain ⟨p, hp, hset⟩ := h.used r hr
  obtain ⟨q, hq, hqp, hnot⟩ := hsp p hp (reaped_dependent hid hp hset (h.recorded p hp))
  exact hnot (reaped_dependent hid hq (hqp.trans hset) (h.recorded q hq))

/-- The sets are the same, and a recorded program still has its bytecode. -/
structure SameSets (w w' : World) : Prop where
  mapSets : w'.store.mapSets = w.store.mapSets
  set : ∀ x, SameSet x w w'
  bytecode : (∀ q ∈ w.store.programs, q.programID ∈ w.bytecode) →
    ∀ q ∈ w'.store.programs, q.programID ∈ w'.bytecode

instance : Std.Refl SameSets := ⟨fun w => ⟨rfl, fun x => refl_of (SameSet x) w, fun h => h⟩⟩

instance : IsTrans World SameSets := ⟨fun _ _ _ h h' =>
  ⟨h'.mapSets.trans h.mapSets, fun x => trans_of (SameSet x) (h.set x) (h'.set x),
    fun hb => h'.bytecode (h.bytecode hb)⟩⟩

theorem SameMaps.sameSets (h : SameMaps (fun _ => True) w w') : SameSets w w' where
  mapSets := h.mapSets
  set := h.set
  bytecode hb q hq := (h.bytecode _ trivial).2 (hb q (h.programs ▸ hq))

theorem sameSets_executeReap (hdir : .mapDir id ∉ w.dirs) :
    SameSets w (executeReapDeadProgramRecord e id w).state := by
  have hnone : removeProgramMapsPins e (.mapDir id) w = .ok () w := by
    unfold removeProgramMapsPins
    rw [read_bind, if_neg hdir]
    rfl
  rw [executeReap_eq, hnone, Outcome.state_ok, reapRecord, ignore_bind, bind_apply, attempt]
  have hshared := ((sameMaps_cleanupSharedMapPins (e := e) (P := fun _ => True) id) w).sameSets
  refine trans_of SameSets hshared ?_
  generalize (cleanupSharedMapPins e id w).state = w1
  cases h : deleteProgramRecord e id w1 with
  | err er w2 =>
    rw [primErr_eq_err h]
    exact (sameMaps_fail w1 _).sameSets
  | ok u w2 =>
    obtain ⟨st, hst, rfl⟩ := deleteProgramRecord_eq_ok h
    obtain ⟨-, hrows⟩ := deleteProgram_eq_ok hst
    have hkeep := (sameMaps_removeProgramBytecodeDir (e := e) id).ignore { w1 with store := st }
    have hstore : ∀ x, SameSet x w1 { w1 with store := st } := fun x => sameSet_of_eq rfl rfl
    refine ⟨?_, fun x => trans_of (SameSet x) (hstore x) (hkeep.set x), fun hb q hq => ?_⟩
    · refine hkeep.mapSets.trans ?_
      rw [hrows]
      rfl
    · have hq' : q ∈ st.programs := hkeep.programs ▸ hq
      rw [hrows] at hq'
      obtain ⟨hq', hne⟩ := mem_filter.1 hq'
      exact (hkeep.bytecode _ (of_decide_eq_true hne)).2 (hb q hq')

theorem sameSets_forEach {plan : List ProgramID} (hdir : ∀ id ∈ plan, .mapDir id ∉ w.dirs) :
    SameSets w (forEach (executeReapDeadProgramRecord e) plan w).state := by
  induction plan generalizing w with
  | nil => exact refl_of SameSets w
  | cons id plan ih =>
    obtain ⟨w1, h1⟩ := executeReap_isOk e id w
    have hone := sameSets_executeReap (e := e) (hdir id (mem_cons_self ..))
    rw [h1, Outcome.state_ok] at hone
    rw [forEach_cons, bind_of_ok h1]
    refine trans_of SameSets hone (ih fun x hx hd => ?_)
    exact hdir x (mem_cons_of_mem _ hx) ((hone.set x).dir.1 hd)

theorem SetsInv.sameSets_reap (h : SetsInv w) (hsp : SparesSets e w.store) :
    SameSets w (reapDeadProgramRecords e w).state := by
  obtain ⟨w0, hw0, heq⟩ := reap_state e w
  have hlog : SameMaps (fun _ => True) w w0 := by
    rcases hw0 with rfl | ⟨c, rfl⟩
    · exact refl_of (SameMaps _) w0
    · exact sameMaps_fail w c
  rw [heq]
  refine trans_of SameSets hlog.sameSets (sameSets_forEach fun id hid hd => ?_)
  exact h.no_set_of_reaped hsp hid ((hlog.set id).dir.1 hd)

/-- The sets that were there are kept with their directories and pins. -/
def SetsStay (w w' : World) : Prop :=
  ∀ s, w.store.mapSetExists s = true → w'.store.mapSetExists s = true ∧ SameSet s w w'

/-- **A reap that leaves every set a user** keeps the sets matched with their users. -/
theorem SetsInv.reap (h : SetsInv w) (hsp : SparesSets e w.store) :
    SetsInv (reapDeadProgramRecords e w).state ∧ SetsStay w (reapDeadProgramRecords e w).state := by
  have hsame := h.sameSets_reap hsp
  have hprograms := reap_programs e w
  generalize (reapDeadProgramRecords e w).state = w' at hsame hprograms ⊢
  have hold : ∀ q ∈ w'.store.programs, q ∈ w.store.programs := fun q hq => by
    rw [hprograms] at hq
    exact (mem_filter.1 hq).1
  have hexists : ∀ x, w'.store.mapSetExists x = w.store.mapSetExists x := fun x => by
    unfold Store.mapSetExists
    rw [hsame.mapSets]
  have hleft : ∀ q ∈ w.store.programs, q.programID ∉ reaped e w.store → q ∈ w'.store.programs := by
    intro q hq hnot
    rw [hprograms]
    exact mem_filter.2 ⟨hq, by simp [hnot]⟩
  refine ⟨⟨⟨fun r hr => ?_, fun q hq => ?_, fun x => ?_, fun x hx name => ?_⟩, ?_, ?_, ?_⟩,
    fun x hx => ⟨(hexists x).trans hx, hsame.set x⟩⟩
  · rw [hsame.mapSets] at hr
    obtain ⟨p, hp, hset⟩ := h.used r hr
    by_cases hreaped : p.programID ∈ reaped e w.store
    · obtain ⟨q, hq, hqp, hnot⟩ := hsp p hp hreaped
      exact ⟨q, hleft q hq hnot, hqp.trans hset⟩
    · exact ⟨p, hleft p hp hreaped, hset⟩
  · rw [hexists]
    exact h.recorded q (hold q hq)
  · rw [hexists, (hsame.set x).dir]
    exact h.dir x
  · rw [(hsame.set x).pins]
    exact h.pins x (fun hd => hx ((hsame.set x).dir.2 hd)) name
  · rw [hsame.mapSets]
    exact h.path
  · rw [hprograms]
    exact Table.nodup_filter h.ids _
  · exact hsame.bytecode h.bytecode

/-! ## The batch -/

theorem loadOne_dir {item : ProgramRecord × List String} (h : loadOne e i spec w = .ok item w')
    (h0 : spec.mapOwnerID = 0) : .mapDir (e.loadID i) ∈ w'.dirs := by
  obtain ⟨-, w1, hk, hp⟩ := loadOne_eq_ok.1 h
  obtain ⟨-, w0, -, -, hm⟩ := kernelLoad_eq_ok hk
  have hdir := (pinProgramMaps_eq_ok hm).1 h0
  obtain ⟨-, hp⟩ := prim_eq_ok.1 hp
  split at hp
  · cases hp
  · cases hp
    exact hdir

/-- A program of the batch owns the set `x`. -/
def OwnedIn (items : List (ProgramRecord × List String)) (x : ProgramID) : Prop :=
  ∃ it ∈ items, it.1.mapOwnerID = none ∧ it.1.programID = x

theorem loadedRecord_owner : (loadedRecord e i spec).mapOwnerID = none ↔ spec.mapOwnerID = 0 := by
  unfold loadedRecord buildProgramRecord
  split <;> simp_all

/-- A loaded batch makes the directories of the sets it owns and leaves the others alone. -/
theorem LoadedAll.sets (h : LoadedAll e i specs w items w') :
    (∀ x, ¬ OwnedIn items x → SameSet x w w') ∧ (∀ x, OwnedIn items x → .mapDir x ∈ w'.dirs) := by
  induction h with
  | nil i w => exact ⟨fun x _ => refl_of (SameSet x) w, fun x ⟨_, hit, _⟩ => by cases hit⟩
  | @cons i spec specs w w1 w' item items head tail ih =>
    obtain ⟨rfl, -⟩ := loadOne_eq_ok.1 head
    constructor
    · intro x hx
      refine trans_of (SameSet x) (sameSet_loadOne (fun h0 heq => hx ?_) head)
        (ih.1 x fun hown => hx ?_)
      · exact ⟨_, mem_cons_self .., loadedRecord_owner.2 h0, heq⟩
      · obtain ⟨it, hit, hown⟩ := hown
        exact ⟨it, mem_cons_of_mem _ hit, hown⟩
    · rintro x ⟨it, hit, hown, rfl⟩
      by_cases hrest : OwnedIn items it.1.programID
      · exact ih.2 _ hrest
      · rcases mem_cons.1 hit with rfl | hit
        · exact (ih.1 _ hrest).dir.2 (loadOne_dir head (loadedRecord_owner.1 hown))
        · exact absurd ⟨it, hit, hown, rfl⟩ hrest

theorem LoadedAll.bytecode (h : LoadedAll e i specs w items w') :
    w.bytecode ⊆ w'.bytecode ∧ ∀ it ∈ items, it.1.programID ∈ w'.bytecode := by
  induction h with
  | nil i w => exact ⟨Finset.Subset.refl _, fun _ hit => by cases hit⟩
  | cons head tail ih =>
    obtain ⟨-, hnew⟩ := loadOne_bytecode head
    obtain ⟨rfl, -⟩ := loadOne_eq_ok.1 head
    rw [hnew] at ih
    refine ⟨(Finset.subset_insert _ _).trans ih.1, fun it hit => ?_⟩
    rcases mem_cons.1 hit with rfl | hit
    · exact ih.1 (Finset.mem_insert_self _ _)
    · exact ih.2 it hit

theorem mem_addAll_mapSets {r : MapSetRow} : r ∈ (st.addAll items).mapSets ↔
    r ∈ st.mapSets ∨ ∃ it ∈ items, it.1.mapOwnerID = none ∧ r = ⟨it.1.programID, it.1.mapsDir⟩ := by
  induction items generalizing st with
  | nil => simp [addAll]
  | cons it items ih =>
    change r ∈ ((st.addLoaded it.1 it.2).addAll items).mapSets ↔ _
    rw [ih]
    cases ho : it.1.mapOwnerID with
    | none => simp [addLoaded, ho, or_assoc]
    | some o => simp [addLoaded, ho]

theorem mapSetExists_addAll {x : ProgramID} : (st.addAll items).mapSetExists x = true ↔
    st.mapSetExists x = true ∨ OwnedIn items x := by
  simp only [mapSetExists_iff, mem_addAll_mapSets]
  constructor
  · rintro ⟨r, hr | ⟨it, hit, hown, rfl⟩, hid⟩
    · exact .inl ⟨r, hr, hid⟩
    · exact .inr ⟨it, hit, hown, hid⟩
  · rintro (⟨r, hr, hid⟩ | ⟨it, hit, hown, hid⟩)
    · exact ⟨r, .inl hr, hid⟩
    · exact ⟨_, .inr ⟨it, hit, hown, rfl⟩, hid⟩

/-- The programs of a committed batch own sets that were not recorded, or joined sets that are. -/
theorem commitItems_sets (hu : Unrecorded items w.store)
    (h : forEach (fun it => commitItem e it.1 it.2) items w = .ok () w') :
    ∀ it ∈ items, (it.1.mapOwnerID = none → w.store.mapSetExists it.1.programID = false) ∧
      w'.store.mapSetExists it.1.mapSetID = true := by
  induction items generalizing w with
  | nil => exact fun _ hit => by cases hit
  | cons it items ih =>
    obtain ⟨u, w1, h1, h2⟩ := bind_eq_ok.1 h
    obtain ⟨rfl, hself, hset⟩ := commitItem_eq_ok (hu.fresh it (mem_cons_self ..)) h1
    have hlast := commitItems_eq_ok hu.tail h2
    intro it' hit'
    rcases mem_cons.1 hit' with rfl | hit'
    · refine ⟨hself, ?_⟩
      rw [hlast]
      exact mapSetExists_addAll.2 (.inl hset)
    · obtain ⟨hno, hyes⟩ := ih hu.tail h2 it' hit'
      refine ⟨fun hown => ?_, hyes⟩
      -- a set recorded before the batch is recorded when the program comes
      by_contra hex
      have hold : (w.store.addAll [it]).mapSetExists it'.1.programID = true :=
        mapSetExists_addAll.2 (.inl (by simpa using hex))
      cases (hno hown).symm.trans hold

theorem mapSetID_of_owner_none {record : ProgramRecord} (h : record.mapOwnerID = none) :
    record.mapSetID = record.programID := by
  rw [ProgramRecord.mapSetID, h]
  rfl

theorem LoadedAll.mapsDir (h : LoadedAll e 0 specs w items w') :
    ∀ it ∈ items, it.1.mapOwnerID = none → it.1.mapsDir = .mapDir it.1.programID := by
  intro it hit hown
  rw [h.items_eq] at hit
  obtain ⟨j, hj, rfl⟩ := mem_mapIdx.1 hit
  have h0 := loadedRecord_owner.1 hown
  unfold loadedRecord buildProgramRecord loadOutput LoadSpec.mapSetID
  simp [h0]

/-- **A batch in which no primitive fails** keeps the sets matched with their users. -/
theorem SetsInv.loadBody (h : SetsInv w) (hq : Quiet (loadBody e specs) w) :
    SetsInv (loadBody e specs w).state ∧ SetsStay w (loadBody e specs w).state := by
  obtain ⟨items, w1, hall, hu, htx, hok⟩ := loadBody_quiet (fun items w1 hall it hit p hp heq =>
    hall.ids.2 it hit (heq ▸ h.bytecode p hp)) hq
  obtain ⟨hsame, hdirs⟩ := hall.sets
  obtain ⟨hbytes, hnew⟩ := hall.bytecode
  have hsets := commitItems_sets hu (commitBatch_items htx)
  have hstore := hall.store_eq
  rw [hok, Outcome.state_ok]
  rw [hstore] at hsets hu ⊢
  have hstay : ∀ x, w.store.mapSetExists x = true → ¬ OwnedIn items x := by
    rintro x hx ⟨it, hit, hown, rfl⟩
    cases hx.symm.trans ((hsets it hit).1 hown)
  have hset : ∀ x, ¬ OwnedIn items x →
      SameSet x w { w1 with store := w.store.addAll items } := fun x hx =>
    ⟨(hsame x hx).pins, (hsame x hx).dir⟩
  have hprograms : ∀ {p}, p ∈ (w.store.addAll items).programs →
      p ∈ w.store.programs ∨ ∃ it ∈ items, it.1.row = p := fun {p} hp => by
    rw [addAll_programs] at hp
    exact (mem_append.1 hp).imp_right mem_map.1
  refine ⟨⟨⟨fun r hr => ?_, fun p hp => ?_, fun x => ?_, fun x hx => ?_⟩, fun r hr => ?_, ?_,
    fun p hp => ?_⟩, fun x hx => ⟨mapSetExists_addAll.2 (.inl hx), hset x (hstay x hx)⟩⟩
  · change ∃ p ∈ (w.store.addAll items).programs, _
    rw [addAll_programs]
    rcases mem_addAll_mapSets.1 hr with hr | ⟨it, hit, hown, rfl⟩
    · obtain ⟨p, hp, hpr⟩ := h.used r hr
      exact ⟨p, mem_append_left _ hp, hpr⟩
    · exact ⟨_, mem_append_right _ (mem_map_of_mem hit), mapSetID_of_owner_none hown⟩
  · rcases hprograms hp with hp | ⟨it, hit, rfl⟩
    · exact mapSetExists_addAll.2 (.inl (h.recorded p hp))
    · exact (hsets it hit).2
  · change _ ↔ (w.store.addAll items).mapSetExists x = true
    rw [mapSetExists_addAll]
    by_cases hx : OwnedIn items x
    · exact ⟨fun _ => .inr hx, fun _ => hdirs x hx⟩
    · rw [(hset x hx).dir, h.dir, or_iff_left hx]
  · have hno : ¬ OwnedIn items x := fun hown => hx (hdirs x hown)
    intro name
    rw [(hset x hno).pins]
    exact h.pins x (fun hd => hx ((hset x hno).dir.2 hd)) name
  · rcases mem_addAll_mapSets.1 hr with hr | ⟨it, hit, hown, rfl⟩
    · exact h.path r hr
    · exact hall.mapsDir it hit hown
  · change ((w.store.addAll items).programs.map (·.programID)).Nodup
    rw [addAll_programs, map_append, map_map]
    refine nodup_append.2 ⟨h.ids, hu.nodup, fun a ha b hb heq => ?_⟩
    obtain ⟨p, hp, rfl⟩ := mem_map.1 ha
    obtain ⟨it, hit, rfl⟩ := mem_map.1 hb
    exact hu.fresh it hit p hp heq
  · rcases hprograms hp with hp | ⟨it, hit, rfl⟩
    · exact hbytes (h.bytecode p hp)
    · exact hnew it hit

/-! ## Runs -/

/-- What happens to the sets of `w`: one with a user left stays as it is, one without goes with its
row, its directory and its pins. -/
def SetsFollowUsers (w w' : World) : Prop :=
  ∀ s, w.store.mapSetExists s = true →
    ((∃ p ∈ w'.store.programs, p.mapSetID = s) →
      w'.store.mapSetExists s = true ∧ SameSet s w w') ∧
    ((∀ p ∈ w'.store.programs, p.mapSetID ≠ s) →
      w'.store.mapSetExists s = false ∧ .mapDir s ∉ w'.dirs ∧ NoPins s w')

/-- A load, a reap, an unload or a deletion of programs in which no primitive fails, whether it
returns an error or not. A reap leaves every set a user. -/
inductive SetStep : World → World → Prop
  | load {w : World} (e : Env) (specs : List LoadSpec) (hq : Quiet (load e specs) w)
      (hsp : OwnersValid e specs w.store → SparesSets e w.store) : SetStep w (load e specs w).state
  | reap {w : World} (e : Env) (hq : Quiet (reapDeadProgramRecords e) w)
      (hsp : SparesSets e w.store) : SetStep w (reapDeadProgramRecords e w).state
  | unload {w : World} (e : Env) (id : ProgramID) (hq : Quiet (unloadProgram e id) w) :
      SetStep w (unloadProgram e id w).state
  | delete {w : World} (e : Env) (ids : List ProgramID) (opts : DeleteProgramsOpts)
      (hq : Quiet (deletePrograms e ids opts) w) : SetStep w (deletePrograms e ids opts w).state

theorem SetsMatch.no_set (h : SetsMatch w) (hno : ∀ p ∈ w.store.programs, p.mapSetID ≠ s) :
    w.store.mapSetExists s = false ∧ .mapDir s ∉ w.dirs ∧ NoPins s w := by
  have hrow : w.store.mapSetExists s = false := by
    by_contra hex
    obtain ⟨r, hr, rfl⟩ := mapSetExists_iff.1 (Bool.of_not_eq_false hex)
    obtain ⟨p, hp, hset⟩ := h.used r hr
    exact hno p hp hset
  have hdir : .mapDir s ∉ w.dirs := fun hd => Bool.noConfusion (hrow.symm.trans ((h.dir s).1 hd))
  exact ⟨hrow, hdir, h.pins s hdir⟩

theorem SetsStay.follow (hst : SetsStay w w') (h : SetsMatch w') : SetsFollowUsers w w' :=
  fun s hs => ⟨fun _ => hst s hs, h.no_set⟩

theorem SetsGo.follow (hgo : SetsGo w w') (h : SetsMatch w') : SetsFollowUsers w w' := by
  refine fun s _ => ⟨?_, h.no_set⟩
  rintro ⟨p, hp, rfl⟩
  exact ⟨h.recorded p hp, hgo.kept _ (h.recorded p hp)⟩

theorem SetsStay.trans {w1 : World} (h : SetsStay w w1) (h' : SetsStay w1 w') : SetsStay w w' :=
  fun s hs => ⟨(h' s (h s hs).1).1, trans_of (SameSet s) (h s hs).2 (h' s (h s hs).1).2⟩

theorem SetsInv.step (h : SetsInv w) (hstep : SetStep w w') :
    SetsInv w' ∧ SetsFollowUsers w w' := by
  cases hstep with
  | load e specs hq hsp =>
    rcases load_quiet hq with ⟨-, heq⟩ | ⟨-, hv, -, hbody, heq⟩
    · rw [heq]
      exact ⟨h, SetsStay.follow (fun s hs => ⟨hs, refl_of (SameSet s) w⟩) h.toSetsMatch⟩
    · obtain ⟨h1, hst1⟩ := h.reap (hsp hv)
      obtain ⟨h2, hst2⟩ := h1.loadBody hbody
      rw [heq]
      exact ⟨h2, (hst1.trans hst2).follow h2.toSetsMatch⟩
  | reap e hq hsp =>
    obtain ⟨h1, hst⟩ := h.reap hsp
    exact ⟨h1, hst.follow h1.toSetsMatch⟩
  | unload e id hq =>
    obtain ⟨h1, hgo⟩ := unloadProgram_sets h hq
    exact ⟨h1, hgo.follow h1.toSetsMatch⟩
  | delete e ids opts hq =>
    obtain ⟨h1, hgo⟩ := (setsKept_deletePrograms ids opts w).2 hq h
    exact ⟨h1, hgo.follow h1.toSetsMatch⟩

theorem setsInv_run {w₀ : World} (h₀ : SetsInv w₀) (h : Relation.ReflTransGen SetStep w₀ w) :
    SetsInv w := by
  induction h with
  | refl => exact h₀
  | tail _ hstep ih => exact (ih.step hstep).1

/-- **The sets match their users after every run** in which no primitive fails and every reap leaves
each set a user, and in every step a set goes exactly when its last user does. -/
theorem mapSets_of_run {w₀ : World} (h₀ : SetsInv w₀) (h : Relation.ReflTransGen SetStep w₀ w) :
    SetsMatch w ∧ ∀ w', SetStep w w' → SetsMatch w' ∧ SetsFollowUsers w w' := by
  have hinv := setsInv_run h₀ h
  refine ⟨hinv.toSetsMatch, fun w' hstep => ?_⟩
  obtain ⟨h', hfollow⟩ := hinv.step hstep
  exact ⟨h'.toSetsMatch, hfollow⟩

namespace Sample

theorem setsInv_empty : SetsInv {} where
  used r hr := by cases hr
  recorded p hp := by cases hp
  dir s := by simp [Store.mapSetExists]
  pins s _ name := rfl
  path r hr := by cases hr
  ids := nodup_nil
  bytecode p hp := by cases hp

theorem sparesSets_of_nil (h : reaped e st = []) : SparesSets e st := fun p _ hp => by
  rw [h] at hp
  cases hp

/-- Program 200 uses the maps of program 100. -/
@[irreducible] def joined : World := (load (env 2 []) [oneMap "b" 100] owner).state

theorem run_joined : Relation.ReflTransGen SetStep {} joined := by
  refine .tail (.single (b := owner) ?_) ?_
  · unfold owner
    exact .load _ _ (by decide +kernel) fun _ => sparesSets_of_nil rfl
  · unfold joined
    exact .load _ _ (by decide +kernel) fun _ => sparesSets_of_nil (by decide +kernel)

/-- Program 100 is unloaded, and 200 still uses its maps. -/
@[irreducible] def ownerGone : World := (unloadProgram (env 3 []) 100 joined).state

theorem run_ownerGone : Relation.ReflTransGen SetStep {} ownerGone := by
  refine .tail run_joined ?_
  unfold ownerGone
  exact .unload _ _ (by decide +kernel)

end Sample

open Sample

/-- The set of program 100 survives its unload and goes with program 200. -/
theorem mapSets_of_run_sample :
    ownerGone.store.mapSetExists 100 = true ∧
      let w' := (unloadProgram (env 4 []) 200 ownerGone).state
      SetsMatch w' ∧ w'.store.mapSetExists 100 = false ∧ .mapDir 100 ∉ w'.dirs ∧ NoPins 100 w' := by
  have hset : ownerGone.store.mapSetExists 100 = true := by decide +kernel
  have hq : Quiet (unloadProgram (env 4 []) 200) ownerGone := by decide +kernel
  have hnone : (unloadProgram (env 4 []) 200 ownerGone).state.store.programs = [] := by
    decide +kernel
  obtain ⟨-, hstep⟩ := mapSets_of_run setsInv_empty run_ownerGone
  obtain ⟨hmatch, hfollow⟩ := hstep _ (.unload _ _ hq)
  refine ⟨hset, hmatch, (hfollow 100 hset).2 fun p hp => ?_⟩
  rw [hnone] at hp
  cases hp

/-- **A reap that takes the last user of a set leaves the set recorded**: program 100 is dead when
another program is loaded, and its row goes without its set. -/
theorem reap_leaves_map_set :
    let e := { env 2 [] with live := fun id => decide (id ≠ 100) }
    let w' := (load e [oneMap "b" 0] owner).state
    Relation.ReflTransGen SetStep {} owner ∧ Quiet (load e [oneMap "b" 0]) owner ∧
      (load e [oneMap "b" 0] owner).isOk = true ∧
      w'.store.mapSetExists 100 = true ∧ ∀ p ∈ w'.store.programs, p.mapSetID ≠ 100 := by
  refine ⟨?_, by decide +kernel⟩
  unfold owner
  exact .single (.load _ _ (by decide +kernel) fun _ => sparesSets_of_nil rfl)

end Bpfman
