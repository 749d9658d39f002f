import Bpfman.LoadProof
import Bpfman.Release

/-!
# What a load touches

* `touched_loadOne`, `touched_unloadLoaded` — a program of the batch touches what is its own, and
  the map directory it uses if its bytecode cannot be published;
* `reaped`, `keeps_reap` — the programs the reap of a load goes for;
* `load_eq_err`, `load_eq_ok` — a load validates its owners, reaps, and runs the batch.
-/

namespace Bpfman

open Fallible Proc List

variable {e : Env} {w w' : World} {i : Nat} {spec : LoadSpec} {specs : List LoadSpec}
  {id : ProgramID} {D : ProgramID → Prop} {S : String → Prop} {U : Prop}
  {items : List (ProgramRecord × List String)}

/-! ## Taking a program down -/

theorem mem_mapPinsIn {d : Dir} {q : MapPinPath} (h : q ∈ w.mapPinsIn d) : q.parent = d := by
  have := (mem_filter.1 h).2
  simpa using this

theorem touched_removeProgramMapsPins {m : ProgramID} (hm : D m) :
    Keeps (Touched ⟨id, D, S, U⟩) (removeProgramMapsPins e (.mapDir m)) := by
  refine (Keeps.read _).bind fun dirs => Keeps.ite ?_ (Keeps.pure ())
  refine .bind_of (P := fun pins => ∀ q ∈ pins, MapPinPath.parent q = .mapDir m)
    (.read _) ?_ fun pins hpins => Keeps.bind (Keeps.forEach fun q hq => ?_) fun _ => ?_
  · intro w pins w' h q hq
    cases h
    exact mem_mapPinsIn hq
  · cases q with
    | map m' name =>
      obtain rfl : m' = m := by simpa [MapPinPath.parent] using hpins _ hq
      exact touched_removeMapPin hm name
    | shared name => exact absurd (hpins _ hq) (by simp [MapPinPath.parent])
  · exact keeps_prim touched_fail fun w => .ite (.some (.single (.rmdir w hm))) .none

theorem touched_undoLoad (hD : D (spec.mapSetID (e.loadID i))) :
    Keeps (Touched ⟨e.loadID i, D, S, U⟩) (undoLoad e (loadOutput e i spec)) :=
  touched_removePin.ignore.bind fun _ => (touched_removeProgramMapsPins hD).ignore

theorem touched_publishBytecode : Keeps (Touched ⟨id, D, S, U⟩) (publishBytecode e id) :=
  keeps_prim touched_fail fun w => .ite .none (.some (.single (.publish w)))

theorem touched_removeProgramBytecodeDir :
    Keeps (Touched ⟨id, D, S, U⟩) (removeProgramBytecodeDir e id) :=
  keeps_prim touched_fail fun w => .some (.single (.unpublish w))

theorem touched_cleanupSharedMapPins (hU : U) :
    Keeps (Touched ⟨id, D, S, U⟩) (cleanupSharedMapPins e id) :=
  .bind (keeps_prim touched_fail fun w => .some (.single (.dropRefs w hU))) fun _ =>
    .forEach fun name _ =>
      .ignore (keeps_prim touched_fail fun w => .some (.single (.unshare w hU name)))

/-- A program that was loaded: its own pin and bytecode, and its own map directory if it owns its
maps. -/
theorem touched_loadOne {item : ProgramRecord × List String}
    (hD : spec.mapOwnerID = 0 → D (e.loadID i))
    (hS : spec.mapOwnerID = 0 → ∀ name ∈ spec.pinByNameMaps, S name)
    (h : loadOne e i spec w = .ok item w') : Touched ⟨e.loadID i, D, S, U⟩ w w' := by
  obtain ⟨-, w1, hk, hp⟩ := loadOne_eq_ok.1 h
  exact ((touched_kernelLoad hD hS).ok hk).trans (touched_publishBytecode.ok hp)

/-- A program that is loaded or not; the map directory it uses is touched as well. -/
theorem touches_loadOne (hD : D (spec.mapSetID (e.loadID i)))
    (hS : spec.mapOwnerID = 0 → ∀ name ∈ spec.pinByNameMaps, S name) :
    Keeps (Touched ⟨e.loadID i, D, S, U⟩) (loadOne e i spec) := by
  intro w
  have hown : spec.mapOwnerID = 0 → D (e.loadID i) := fun h0 => by
    simpa [LoadSpec.mapSetID, h0] using hD
  cases h : loadOne e i spec w with
  | ok item w' => exact touched_loadOne hown hS h
  | err er w' =>
    rcases loadOne_eq_err h with ⟨err', hk⟩ | ⟨w1, w2, hk, hp, rfl⟩
    · exact (touched_kernelLoad hown hS).err hk
    · exact (((touched_kernelLoad hown hS).ok hk).trans (touched_publishBytecode.err hp)).trans
        (touched_undoLoad hD w2)

/-- As `touches_loadOne`, whatever is touched of the sets. -/
theorem touches_loadOne_wide :
    Keeps (Touched (.wide (e.loadID i) fun _ => True)) (loadOne e i spec) :=
  touches_loadOne trivial fun _ _ _ => trivial

@[simp] theorem loadedRecord_programID (e : Env) (i : Nat) (spec : LoadSpec) :
    (loadedRecord e i spec).programID = e.loadID i := rfl

theorem loadedRecord_mapSetID (e : Env) (i : Nat) (spec : LoadSpec) :
    (loadedRecord e i spec).mapSetID = spec.mapSetID (e.loadID i) := by
  unfold ProgramRecord.mapSetID loadedRecord buildProgramRecord LoadSpec.mapSetID
  split <;> rfl

theorem touched_removeUnrecordedMaps
    (hD : spec.mapSetID (e.loadID i) = e.loadID i → D (e.loadID i)) :
    Keeps (Touched ⟨e.loadID i, D, S, U⟩) (removeUnrecordedMaps e (loadedRecord e i spec)) := by
  unfold removeUnrecordedMaps
  rw [loadedRecord_mapSetID]
  split
  · rename_i hself
    refine .bind ?_ fun remove => .ite (.ignore ?_) (.pure ())
    · refine (keeps_query touched_fail).attempt.bind fun r => ?_
      cases r <;> exact .pure _
    · change Keeps _ (removeProgramMapsPins e (.mapDir (spec.mapSetID (e.loadID i))))
      rw [hself]
      exact touched_removeProgramMapsPins (hD hself)
  · exact .pure ()

theorem keeps_unloadLoaded {R : World → World → Prop} [Std.Refl R] [IsTrans World R]
    (hT : ∀ w w', Touched ⟨e.loadID i, fun _ => False, fun _ => False, True⟩ w w' → R w w')
    (hmaps : Keeps R (removeUnrecordedMaps e (loadedRecord e i spec))) :
    Keeps R (unload e (loadedRecord e i spec) [] false) :=
  (touched_removePin.mono hT).mapErr.bind fun _ =>
    ((touched_cleanupSharedMapPins trivial).mono hT).ignore.bind fun _ =>
    .bind (.bind hmaps fun _ => .pure _)
      fun result => (touched_removeProgramBytecodeDir.mono hT).ignore.bind fun _ =>
        .bind (.pure ()) fun _ => .lift result

theorem touched_unloadLoaded (hD : spec.mapSetID (e.loadID i) = e.loadID i → D (e.loadID i))
    (hU : U) : Keeps (Touched ⟨e.loadID i, D, S, U⟩) (unload e (loadedRecord e i spec) [] false) :=
  keeps_unloadLoaded (fun _ _ => Touched.mono (fun _ h => h.elim) (fun _ h => h.elim) fun _ => hU)
    (touched_removeUnrecordedMaps hD)

theorem touched_unloadLoaded_wide : Keeps (Touched (.wide (e.loadID i) fun _ => True))
    (unload e (loadedRecord e i spec) [] false) :=
  touched_unloadLoaded (fun _ => trivial) trivial

/-! ## The batch -/

section Batch

variable {R : World → World → Prop} [Std.Refl R] [IsTrans World R]

/-- A relation that every program of the batch keeps. -/
theorem LoadedAll.lift (h : LoadedAll e i specs w items w')
    (hR : ∀ j spec, specs[j]? = some spec → ∀ w item w', loadOne e (i + j) spec w = .ok item w' →
      R w w') : R w w' := by
  induction h with
  | nil i w => exact refl_of R w
  | cons head tail ih =>
    refine trans_of R (hR 0 _ rfl _ _ _ head) (ih fun j spec hj => ?_)
    rw [Nat.add_assoc, Nat.add_comm 1]
    exact hR (j + 1) spec hj

/-- As `lift`, when a program keeps the relation because of those loaded before it. -/
theorem LoadedAll.lift_reached (h : LoadedAll e i specs w items w')
    (hR : ∀ pre spec post its wa item wb, specs = pre ++ spec :: post → LoadedAll e i pre w its wa →
      loadOne e (i + pre.length) spec wa = .ok item wb → R wa wb) : R w w' := by
  induction specs using reverseRecOn generalizing items w' with
  | nil =>
    cases h
    exact refl_of R w
  | append_singleton specs spec ih =>
    obtain ⟨its, its', w1, w2, -, hpre, hone, hlast⟩ := h.split
    cases hlast
    refine trans_of R (ih hpre ?_) (hR specs spec [] its w1 _ _ rfl hpre hone)
    intro pre sp post its wa item wb heq
    exact hR pre sp (post ++ [spec]) its wa item wb (by simp [heq])

theorem LoadedAll.record_of_mem (h : LoadedAll e i specs w items w') {r : ProgramRecord}
    (hr : r ∈ items.map (·.1)) : ∃ j spec, specs[j]? = some spec ∧
    r = loadedRecord e (i + j) spec := by
  rw [h.items_eq] at hr
  obtain ⟨it, hit, rfl⟩ := mem_map.1 hr
  obtain ⟨j, hj, rfl⟩ := mem_mapIdx.1 hit
  exact ⟨j, specs[j], getElem?_eq_getElem hj, rfl⟩

theorem keeps_cleanupLoaded {loaded : List ProgramRecord}
    (hR : ∀ r ∈ loaded, Keeps R (unload e r [] false)) : Keeps R (cleanupLoaded e loaded) :=
  .forEach fun r hr => (hR r (mem_reverse.1 hr)).ignore

end Batch

/-! ## The reaper -/

/-- The programs the reap of a load goes for: none if they cannot be enumerated. -/
def reaped (e : Env) (s : Store) : List ProgramID :=
  if e.fails .listPrograms || e.fails .kernelPrograms then [] else planReap s.listPrograms e.live

/-- The reap runs its plan, whatever the single steps return. -/
theorem reap_state (e : Env) (w : World) :
    ∃ w0, (w0 = w ∨ ∃ c, w0 = w.fail c) ∧ (reapDeadProgramRecords e w).state =
      (forEach (executeReapDeadProgramRecord e) (reaped e w.store) w0).state := by
  unfold reaped
  cases hl : e.fails .listPrograms with
  | true =>
    simp [reapDeadProgramRecords, listProgramsFromStore, query, hl, mapErr, bind_apply]
  | false =>
    cases hk : e.fails .kernelPrograms with
    | true =>
      simp [reapDeadProgramRecords, listProgramsFromStore, query, prim, hl, hk, mapErr, bind_apply]
    | false =>
      simp [reapDeadProgramRecords, listProgramsFromStore, query, prim, hl, hk, mapErr, bind_apply]

theorem keeps_reap {R : World → World → Prop} [Std.Refl R] [IsTrans World R]
    (hfail : ∀ w c, R w (w.fail c))
    (hR : ∀ id ∈ reaped e w.store, Keeps R (executeReapDeadProgramRecord e id)) :
    R w (reapDeadProgramRecords e w).state := by
  obtain ⟨w0, hw0, heq⟩ := reap_state e w
  rw [heq]
  have h0 : R w w0 := by
    rcases hw0 with rfl | ⟨c, rfl⟩
    · exact refl_of R _
    · exact hfail w c
  exact trans_of R h0 (Keeps.forEach hR w0)

/-! ## Load -/

/-- Every explicit owner has a map set, and the check of it does not fail. -/
def OwnersValid (e : Env) (specs : List LoadSpec) (s : Store) : Prop :=
  ∀ spec ∈ specs, spec.mapOwnerID ≠ 0 →
    e.fails (.mapSetExists spec.mapOwnerID) = false ∧ s.mapSetExists spec.mapOwnerID = true

theorem mapSetExists_eq (e : Env) (id : ProgramID) (w : World) :
    mapSetExists e id w =
      if e.fails (.mapSetExists id) then .err (.call (.mapSetExists id)) (w.fail (.mapSetExists id))
      else .ok (w.store.mapSetExists id) w := by
  rfl

/-- The check of the owners passes and changes nothing, or stops the load before anything
changes. -/
theorem validate_cases (e : Env) (specs : List LoadSpec) (w : World) :
    (OwnersValid e specs w.store ∧ validateExplicitMapOwners e specs w = .ok () w) ∨
      (¬ OwnersValid e specs w.store ∧ ∃ err w', validateExplicitMapOwners e specs w = .err err w' ∧
        (w' = w ∨ ∃ c, w' = w.fail c)) := by
  induction specs with
  | nil => exact .inl ⟨by simp [OwnersValid], rfl⟩
  | cons spec specs ih =>
    -- the step for `spec`, then the rest from an unchanged world
    have hcons : OwnersValid e (spec :: specs) w.store ↔ (spec.mapOwnerID ≠ 0 →
        e.fails (.mapSetExists spec.mapOwnerID) = false ∧
          w.store.mapSetExists spec.mapOwnerID = true) ∧ OwnersValid e specs w.store := by
      simp [OwnersValid]
    unfold validateExplicitMapOwners at ih ⊢
    rw [forEach_cons, bind_apply, hcons]
    by_cases h0 : spec.mapOwnerID = 0
    · simpa [h0] using ih
    · simp only [h0, if_false, bind_apply, mapErr, mapSetExists_eq]
      cases hf : e.fails (.mapSetExists spec.mapOwnerID) with
      | true => simp [h0]
      | false =>
        cases hs : w.store.mapSetExists spec.mapOwnerID with
        | false => simp [h0]
        | true => simpa using ih

/-- A load does nothing, or runs its batch after the reap. -/
theorem load_cases (e : Env) (specs : List LoadSpec) (w : World) :
    ((specs = [] ∨ ¬ OwnersValid e specs w.store) ∧
        ∃ err w', load e specs w = .err err w' ∧ (w' = w ∨ ∃ c, w' = w.fail c)) ∨
      (specs ≠ [] ∧ OwnersValid e specs w.store ∧
        load e specs w = loadBody e specs (reapDeadProgramRecords e w).state) := by
  unfold load
  split
  · rename_i hnil
    exact .inl ⟨.inl (isEmpty_iff.1 hnil), _, w, rfl, .inl rfl⟩
  · rename_i hne
    rcases validate_cases e specs w with ⟨hv, hok⟩ | ⟨hv, err, w1, herr, hw1⟩
    · exact .inr ⟨fun hnil => hne (isEmpty_iff.2 hnil), hv, bind_of_ok hok⟩
    · exact .inl ⟨.inr hv, err, w1, bind_of_err herr, hw1⟩

theorem load_eq_err {err : Err} (h : load e specs w = .err err w') :
    ((specs = [] ∨ ¬ OwnersValid e specs w.store) ∧ (w' = w ∨ ∃ c, w' = w.fail c)) ∨
      (specs ≠ [] ∧ OwnersValid e specs w.store ∧
        loadBody e specs (reapDeadProgramRecords e w).state = .err err w') := by
  rcases load_cases e specs w with ⟨hno, er, w1, herr, hw1⟩ | ⟨hne, hv, hbody⟩
  · obtain ⟨-, rfl⟩ := Outcome.err.inj (herr.symm.trans h)
    exact .inl ⟨hno, hw1⟩
  · exact .inr ⟨hne, hv, hbody.symm.trans h⟩

theorem load_eq_ok {records : List ProgramRecord} (h : load e specs w = .ok records w') :
    specs ≠ [] ∧ OwnersValid e specs w.store ∧
      loadBody e specs (reapDeadProgramRecords e w).state = .ok records w' := by
  rcases load_cases e specs w with ⟨hno, er, w1, herr, hw1⟩ | ⟨hne, hv, hbody⟩
  · cases herr.symm.trans h
  · exact ⟨hne, hv, hbody.symm.trans h⟩

end Bpfman
