import Bpfman.Batch

/-!
# A load in which no primitive fails

* `journaled_loadOne` — a program of the batch fails to load only by a failed primitive;
* `loadBody_quiet` — a batch without a failed primitive is committed, if none of its programs is
  recorded;
* `loadOne_bytecode` — a program that was loaded had no bytecode directory before.
-/

namespace Bpfman

open Fallible Proc List

variable {e : Env} {w w' : World} {i : Nat} {spec : LoadSpec} {specs : List LoadSpec}
  {id : ProgramID} {items : List (ProgramRecord × List String)}

/-! ## One program -/

theorem journaled_loadPinnedMap (p : MapPinPath) : Journaled (loadPinnedMap e p) :=
  journaled_prim fun _ => .ite (.some rfl) .none

theorem journaled_pinMap (p : MapPinPath) (x : World → MapID) : Journaled (pinMap e p x) :=
  journaled_prim fun _ => .ite .none (.some rfl)

theorem journaled_call {α : Type} {c : Call} {a : α} : Journaled (prim e c fun w => some (a, w)) :=
  journaled_prim fun _ => .some rfl

theorem journaled_shareMap (name : String) : Journaled (shareMap e i name) :=
  (Journaled.read _).bind fun _ => Journaled.ite (journaled_loadPinnedMap _).mapErr
    (journaled_call.mapErr.bind fun _ => (journaled_pinMap _ _).mapErr)

theorem journaled_mapReplacements (spec : LoadSpec) : Journaled (mapReplacements e i spec) := by
  refine .ite (Journaled.forEach fun _ _ => (journaled_loadPinnedMap _).mapErr) ?_
  exact (Journaled.pure ()).ite ((adapts_mkdirAll _).journaled.mapErr.bind fun _ =>
    .forEach fun name _ => journaled_shareMap name)

theorem journaled_loadCollection (spec : LoadSpec) : Journaled (loadCollection e i spec) :=
  journaled_call.mapErr.bind fun _ => (journaled_mapReplacements spec).bind fun _ =>
    journaled_call.mapErr

theorem logs_unpinLoaded (id : ProgramID) (pinned : List String) :
    Keeps Logs (unpinLoaded e id pinned) :=
  (Keeps.forEach fun _ _ => (journaled_removeMapPin _).extend.ignore).bind fun _ =>
    (adapts_removePin _).logs.ignore

theorem logs_discardLoaded (id : ProgramID) (pinned : List String) :
    Keeps Logs (discardLoaded e id pinned) :=
  (logs_unpinLoaded id pinned).bind fun _ => (adapts_removeAll _).logs.ignore

theorem journaled_pinMaps (id : ProgramID) :
    ∀ (ms : List MapSpec) (pinned : List String), Journaled (pinMaps e i id pinned ms)
  | [], _ => .pure ()
  | _ :: ms, pinned => ((journaled_pinMap _ _).mapErr.onErr (logs_discardLoaded id pinned)).bind
      fun _ => journaled_pinMaps id ms _

theorem journaled_pinProgramMaps (id : ProgramID) (spec : LoadSpec) :
    Journaled (pinProgramMaps e i id spec) :=
  .ite (((adapts_mkdirAll _).journaled.mapErr.onErr (logs_unpinLoaded id [])).bind fun _ =>
    journaled_pinMaps id _ _) (.pure ())

theorem logs_abandonLoad (id : ProgramID) (spec : LoadSpec) : Keeps Logs (abandonLoad e id spec) :=
  (logs_discardLoaded id _).ite (logs_unpinLoaded id _)

theorem journaled_kernelLoad (spec : LoadSpec) : Journaled (kernelLoad e i spec) :=
  (journaled_loadCollection spec).bind fun _ =>
    .bind (.mapErr (journaled_prim fun _ => .ite .none (.some rfl))) fun _ =>
      (journaled_pinProgramMaps _ spec).bind fun _ =>
        (journaled_call.mapErr.onErr (logs_abandonLoad _ spec)).bind fun _ => .pure _

theorem journaled_publishBytecode (id : ProgramID) : Journaled (publishBytecode e id) :=
  journaled_prim fun _ => .ite .none (.some rfl)

theorem journaled_loadOne (i : Nat) (spec : LoadSpec) : Journaled (loadOne e i spec) := by
  rw [loadOne_eq]
  refine (journaled_kernelLoad spec).mapErr.bind fun out =>
    ((journaled_publishBytecode _).onErr ?_).bind fun _ => .pure _
  exact (adapts_removePin _).logs.ignore.bind fun _ =>
    (journaled_removeProgramMapsPins _).extend.ignore

theorem logs_cleanupLoaded (loaded : List ProgramRecord) : Keeps Logs (cleanupLoaded e loaded) := by
  refine keeps_cleanupLoaded fun r _ => ?_
  exact .bind (.mapErr (.pure _)) fun _ =>
    (journaled_unloadRest _ _).extend

theorem journaled_loadAll (specs : List LoadSpec) (i : Nat)
    (items : List (ProgramRecord × List String)) : Journaled (loadAll e i specs items) := by
  induction specs generalizing i items with
  | nil => exact .pure _
  | cons spec specs ih =>
    exact ((journaled_loadOne i spec).onErr (logs_cleanupLoaded _)).bind fun item => ih _ _

/-! ## The commit -/

theorem journaled_saveProgram (record : ProgramRecord) : Journaled (saveProgram e record) :=
  journaled_write fun _ _ => rfl

theorem journaled_saveSharedMapPins (names : List String) :
    Journaled (saveSharedMapPins e id names) :=
  journaled_write fun _ _ => rfl

/-- The writes of one program. -/
def saveItem (e : Env) (record : ProgramRecord) (names : List String) : M Unit := do
  mapErr (.wrap s!"save program {record.programID}") (saveProgram e record)
  if names.isEmpty then pure ()
  else
    mapErr (.wrap s!"save shared map pins for program {record.programID}")
      (saveSharedMapPins e record.programID names)

theorem journaled_saveItem (record : ProgramRecord) (names : List String) :
    Journaled (saveItem e record names) :=
  (journaled_saveProgram record).mapErr.bind fun _ =>
    (Journaled.pure ()).ite (journaled_saveSharedMapPins names).mapErr

theorem logs_commitItem (record : ProgramRecord) (names : List String) :
    Keeps Logs (commitItem e record names) := by
  refine logs_query.attempt.bind fun found => ?_
  cases found with
  | ok r => exact .fail _
  | error err => exact (journaled_saveItem record names).extend.ite (.fail _)

/-- The rows of a program that is not recorded are written, unless a primitive fails. -/
theorem commitItem_quiet {record : ProgramRecord} {names : List String}
    (hid : ∀ p ∈ w.store.programs, p.programID ≠ record.programID)
    (hq : Quiet (commitItem e record names) w) :
    ∃ w', commitItem e record names w = .ok () w' ∧ w'.failed = w.failed := by
  cases hget : getProgramFromStore e record.programID w with
  | ok r w1 =>
    obtain ⟨-, hget, -⟩ := query_eq_ok.1 hget
    obtain ⟨p, hp, hpid, -⟩ := Store.getProgram_eq_ok hget
    exact absurd hpid (hid p hp)
  | err er w1 =>
    have hatt : attempt (getProgramFromStore e record.programID) w = .ok (.error er) w1 := by
      simp only [attempt, hget]
    rcases query_eq_err hget with ⟨rfl, hn⟩ | ⟨rfl, -, hn⟩
    · -- the failed query is in the log
      have hfail : commitItem e record names w = .err
          (.wrap s!"check existing program {record.programID}" er)
          (w.fail (.getProgram record.programID)) := by
        unfold commitItem
        rw [bind_of_ok hatt]
        simp [hn]
      unfold Quiet Proc.Quiet at hq
      rw [hfail] at hq
      exact absurd hq (cons_ne_self _ _)
    · have hrest : commitItem e record names w1 = saveItem e record names w1 := by
        unfold commitItem
        rw [bind_of_ok hatt]
        simp only [hn, if_true]
        rfl
      unfold Quiet Proc.Quiet at hq
      rw [hrest] at hq ⊢
      obtain ⟨u, w', hok, hlog⟩ := (journaled_saveItem record names).isOk hq
      exact ⟨w', hok, hlog⟩

theorem logs_commitItems (items : List (ProgramRecord × List String)) :
    Keeps Logs (forEach (fun it => commitItem e it.1 it.2) items) :=
  .forEach fun it _ => logs_commitItem it.1 it.2

theorem commitItems_quiet (hu : Unrecorded items w.store)
    (hq : Quiet (forEach (fun it => commitItem e it.1 it.2) items) w) :
    ∃ w', forEach (fun it => commitItem e it.1 it.2) items w = .ok () w' ∧
      w'.failed = w.failed := by
  induction items generalizing w with
  | nil => exact ⟨w, rfl, rfl⟩
  | cons it items ih =>
    have hfresh := hu.fresh it (mem_cons_self ..)
    rw [forEach_cons] at hq ⊢
    obtain ⟨hq1, hnext⟩ := hq.split (logs_commitItem _ _) fun _ => logs_commitItems items
    obtain ⟨w1, h1, hlog1⟩ := commitItem_quiet hfresh hq1
    obtain ⟨rfl, -, -⟩ := commitItem_eq_ok hfresh h1
    obtain ⟨w', h', hlog'⟩ := ih hu.tail (hnext h1)
    exact ⟨w', by rw [bind_of_ok h1, h'], hlog'.trans hlog1⟩

theorem journaled_listProgramsFromStore : Journaled (listProgramsFromStore e) :=
    journaled_query fun _ => ⟨_, rfl⟩

theorem logs_commitBatch (items : List (ProgramRecord × List String)) :
    Keeps Logs (commitBatch e items) :=
  (logs_commitItems items).bind fun _ => journaled_listProgramsFromStore.extend.mapErr.bind fun _ =>
    .pure _

/-- A transaction logs what its body and its commit log. -/
theorem runInTransaction_failed (e : Env) (body : M Unit) (w : World) :
    (runInTransaction e body w).state.failed =
      ((do body; prim e .commit fun w => some ((), w) : M Unit) w).state.failed := by
  unfold runInTransaction
  split
  · rename_i h
    rw [h]
  · rename_i h
    rw [h]
    rfl

theorem logs_runInTransaction {body : M Unit} (hb : Keeps Logs body) :
    Keeps Logs (runInTransaction e body) := by
  intro w
  have hall : Keeps Logs (do body; prim e .commit fun w => some ((), w) : M Unit) :=
    hb.bind fun _ => journaled_call.extend
  have hw := hall w
  unfold Logs Extends at hw ⊢
  rwa [runInTransaction_failed]

theorem commit_quiet (hu : Unrecorded items w.store)
    (hq : Quiet (runInTransaction e (commitBatch e items)) w) :
    runInTransaction e (commitBatch e items) w = .ok ()
    { w with store := w.store.addAll items } := by
  have hlist : Journaled (do
      let _ ← mapErr (.wrap "list programs for map users") (listProgramsFromStore e)
      pure () : M Unit) := journaled_listProgramsFromStore.mapErr.bind fun _ => .pure _
  have hcommit : Journaled (prim e .commit fun w => some ((), w)) := journaled_call
  have hbody : Quiet (do commitBatch e items; prim e .commit fun w => some ((), w) : M Unit) w := by
    unfold Quiet Proc.Quiet at hq ⊢
    rwa [runInTransaction_failed] at hq
  have hbatch := hbody.left (logs_commitBatch items) fun _ => hcommit.extend
  -- the rows, the listing, and the commit itself
  obtain ⟨w1, h1, -⟩ :=
    commitItems_quiet hu (hbatch.left (logs_commitItems items) fun _ => hlist.extend)
  obtain ⟨-, hq1⟩ := hbatch.bind (logs_commitItems items) hlist.extend h1
  obtain ⟨_, w2, h2, -⟩ := hlist.isOk hq1
  have hall : commitBatch e items w = .ok () w2 := (bind_of_ok h1).trans h2
  obtain ⟨-, hq2⟩ := hbody.bind (logs_commitBatch items) hcommit.extend hall
  obtain ⟨_, w3, h3, -⟩ := hcommit.isOk hq2
  have htx : runInTransaction e (commitBatch e items) w = .ok () w3 := by
    unfold runInTransaction
    rw [bind_of_ok hall, h3]
  rw [htx, commitBatch_eq_ok hu htx]

/-! ## The batch -/

theorem logs_loadBody (specs : List LoadSpec) : Keeps Logs (loadBody e specs) :=
  (journaled_loadAll specs 0 []).extend.bind fun _ =>
    ((logs_runInTransaction (logs_commitBatch _)).onErr (logs_cleanupLoaded _)).bind fun _ =>
      .pure _

/-- A program that was loaded had no bytecode directory, and has one. -/
theorem loadOne_bytecode {item : ProgramRecord × List String}
    (h : loadOne e i spec w = .ok item w') :
    e.loadID i ∉ w.bytecode ∧ w'.bytecode = insert (e.loadID i) w.bytecode := by
  obtain ⟨-, w1, hk, hp⟩ := loadOne_eq_ok.1 h
  obtain ⟨-, w0, hcol, -, hm⟩ := kernelLoad_eq_ok hk
  have h0 : w0.bytecode = w.bytecode :=
    Finset.ext fun x => (sameProgram_loadCollection.ok hcol).bytecode
  have h1 : w1.bytecode = w.bytecode := (pinProgramMaps_eq_ok hm).2.2.trans h0
  obtain ⟨hnot, ⟨⟩⟩ := Option.ite_none_left_eq_some.1 (prim_eq_ok.1 hp).2
  exact ⟨h1 ▸ hnot, congrArg (insert (e.loadID i)) h1⟩

theorem LoadedAll.ids (h : LoadedAll e i specs w items w') :
    (items.map (·.1.programID)).Nodup ∧ ∀ it ∈ items, it.1.programID ∉ w.bytecode := by
  induction h with
  | nil i w => exact ⟨nodup_nil, fun _ h => by cases h⟩
  | cons head tail ih =>
    obtain ⟨hnot, hnew⟩ := loadOne_bytecode head
    obtain ⟨rfl, -⟩ := loadOne_eq_ok.1 head
    obtain ⟨hnodup, hout⟩ := ih
    rw [hnew] at hout
    refine ⟨nodup_cons.2 ⟨fun hmem => ?_, hnodup⟩, fun it hit => ?_⟩
    · obtain ⟨it, hit, heq⟩ := mem_map.1 hmem
      exact hout it hit (Finset.mem_insert.2 (.inl heq))
    · rcases mem_cons.1 hit with rfl | hit
      · exact hnot
      · exact fun hmem => hout it hit (Finset.mem_insert_of_mem hmem)

/-- Programs loaded with ids that are not recorded are not recorded. -/
theorem LoadedAll.unrecorded_ids (h : LoadedAll e 0 specs w items w')
    (hid : ∀ j < specs.length, ∀ p ∈ w.store.programs, p.programID ≠ e.loadID j) :
    ∀ it ∈ items, ∀ p ∈ w.store.programs, p.programID ≠ it.1.programID := by
  intro it hit p hp
  rw [h.items_eq] at hit
  obtain ⟨j, hj, rfl⟩ := mem_mapIdx.1 hit
  rw [Nat.zero_add]
  exact hid j hj p hp

/-- **A batch in which no primitive fails is committed**, if none of its programs is recorded. -/
theorem loadBody_quiet (hid : ∀ items w1, LoadedAll e 0 specs w items w1 →
      ∀ it ∈ items, ∀ p ∈ w.store.programs, p.programID ≠ it.1.programID)
    (hq : Quiet (loadBody e specs) w) :
    ∃ items w1, LoadedAll e 0 specs w items w1 ∧ Unrecorded items w1.store ∧
      runInTransaction e (commitBatch e items) w1 =
        .ok () { w1 with store := w1.store.addAll items } ∧
      loadBody e specs w = .ok (items.map (·.1)) { w1 with store := w1.store.addAll items } := by
  have hlogs : ∀ items : List (ProgramRecord × List String),
      Keeps Logs (runInTransaction e (commitBatch e items)) := fun items =>
    logs_runInTransaction (logs_commitBatch items)
  have hrest : ∀ items : List (ProgramRecord × List String), Keeps Logs (do
      onErr (runInTransaction e (commitBatch e items)) (cleanupLoaded e (items.map (·.1)))
      pure (items.map (·.1)) : M (List ProgramRecord)) := fun items =>
    ((hlogs items).onErr (logs_cleanupLoaded _)).bind fun _ => .pure _
  have hloop := journaled_loadAll (e := e) specs 0 []
  obtain ⟨items, w1, h1, hq1⟩ := hloop.step hq hrest
  obtain ⟨new, hnew, hall⟩ := loadAll_eq_ok h1
  subst hnew
  have hu : Unrecorded items w1.store :=
    ⟨hall.ids.1, fun it hit p hp => hid items w1 hall it hit p (hall.store_eq ▸ hp)⟩
  have hclean := logs_cleanupLoaded (e := e) (items.map (·.1))
  have htx := commit_quiet hu ((hq1.left ((hlogs items).onErr hclean) fun _ =>
    .pure _).of_onErr (hlogs items) hclean)
  refine ⟨items, w1, hall, hu, htx, ?_⟩
  unfold loadBody
  rw [bind_of_ok h1, bind_of_ok (onErr_eq_ok.2 htx)]
  rfl

/-! ## Load -/

theorem logs_executeReap (id : ProgramID) : Keeps Logs (executeReapDeadProgramRecord e id) := by
  refine (journaled_removeProgramMapsPins _).extend.ignore.bind fun _ =>
    (journaled_cleanupSharedMapPins id).extend.ignore.bind fun _ =>
      (journaled_deleteProgramRecord id).extend.attempt.bind fun r => ?_
  cases r with
  | ok u => exact (journaled_removeProgramBytecodeDir id).extend.ignore
  | error er => exact .pure ()

theorem logs_reap : Keeps Logs (reapDeadProgramRecords e) :=
  journaled_listProgramsFromStore.extend.mapErr.bind fun _ => journaled_call.extend.mapErr.bind
    fun _ =>
    .forEach fun id _ => logs_executeReap id

/-- A load in which no primitive fails does nothing, or neither its reap nor its batch meets a
failed primitive. -/
theorem load_quiet (hq : Quiet (load e specs) w) :
    ((specs = [] ∨ ¬ OwnersValid e specs w.store) ∧ (load e specs w).state = w) ∨
      (specs ≠ [] ∧ OwnersValid e specs w.store ∧ Quiet (reapDeadProgramRecords e) w ∧
        Quiet (loadBody e specs) (reapDeadProgramRecords e w).state ∧
        load e specs w = loadBody e specs (reapDeadProgramRecords e w).state) := by
  unfold Quiet Proc.Quiet at *
  rcases load_cases e specs w with ⟨hno, er, w1, herr, rfl | ⟨c, rfl⟩⟩ | ⟨hne, hv, hbody⟩
  · exact .inl ⟨hno, by rw [herr]; rfl⟩
  · rw [herr] at hq
    exact absurd hq ne_of_cons
  · rw [hbody] at hq ⊢
    obtain ⟨hreap, hload⟩ := Extends.eq_of_eq (logs_reap w) (logs_loadBody specs _) hq
    exact .inr ⟨hne, hv, hreap, hload, rfl⟩

end Bpfman
