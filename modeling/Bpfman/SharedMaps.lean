import Bpfman.LoadQuiet
import Bpfman.MapFrame

/-!
# Shared maps

A map that declares `LIBBPF_PIN_BY_NAME` is pinned once under the shared directory, and every
program that uses it has a row in `shared_map_pins`. The pin is to go with the last of these rows.

* `Shared` — every referenced name is pinned, and the other pins are among given names;
* `Pins` — what loading does to the shared maps: it only pins some;
* `shared_release` — releasing the references of a program keeps `Shared`, the removal of orphaned
  pins working;
* `keepsShared_unloadProgram` — so does an unload, wherever it stops.
-/

namespace Bpfman

open Fallible Proc Store World List

variable {e : Env} {w w' : World} {id : ProgramID} {C S : String → Prop} {sc : Scope}

/-- The calls that release a shared map work. -/
structure Releases (e : Env) : Prop where
  deleteSharedMapPins : ∀ id, e.fails (.deleteSharedMapPins id) = false
  removeMap : ∀ name, e.fails (.removeMap (.shared name)) = false

/-- A map of this name is pinned under the shared directory. -/
def World.SharedPin (w : World) (name : String) : Prop := (w.map? (.shared name)).isSome = true

/-- A program references the shared map. -/
def Store.References (s : Store) (name : String) : Prop := ∃ r ∈ s.sharedMapPins, r.mapName = name

/-- Every referenced shared map is pinned. A pin that is not referenced is one of `C`. -/
structure Shared (C : String → Prop) (w : World) : Prop where
  pinned : ∀ name, w.store.References name → w.SharedPin name
  referenced : ∀ name, w.SharedPin name → w.store.References name ∨ C name

/-! ## Pins that are only added -/

/-- The references and the map sets are the same, and only shared maps of `S` were pinned. -/
structure Pins (S : String → Prop) (w w' : World) : Prop where
  rows : w'.store.sharedMapPins = w.store.sharedMapPins
  mapSets : w'.store.mapSets = w.store.mapSets
  keeps : ∀ name, w.SharedPin name → w'.SharedPin name
  new : ∀ name, w'.SharedPin name → w.SharedPin name ∨ S name

instance : Std.Refl (Pins S) := ⟨fun _ => ⟨rfl, rfl, fun _ h => h, fun _ h => Or.inl h⟩⟩

instance : IsTrans World (Pins S) := ⟨fun _ _ _ h h' =>
  ⟨h'.rows.trans h.rows, h'.mapSets.trans h.mapSets,
    fun name hn => h'.keeps name (h.keeps name hn),
    fun name hn => (h'.new name hn).elim (h.new name) Or.inr⟩⟩

theorem pins_of_eq (hr : w'.store.sharedMapPins = w.store.sharedMapPins)
    (hs : w'.store.mapSets = w.store.mapSets)
    (hm : ∀ name, w'.map? (.shared name) = w.map? (.shared name)) : Pins S w w' := by
  refine ⟨hr, hs, fun name hn => ?_, fun name hn => .inl ?_⟩
  · unfold SharedPin at *
    rwa [hm]
  · unfold SharedPin at *
    rwa [← hm]

theorem pins_fail (w : World) (c : Call) : Pins S w (w.fail c) := pins_of_eq rfl rfl fun _ => rfl

/-- Loading pins shared maps of its scope and releases none. -/
theorem Touched.pins (h : Touched sc w w') (hr : ¬ sc.releases) : Pins sc.shares w w' := by
  refine h.lift fun a b hab => ?_
  cases hab with
  | share name x hs h =>
    refine ⟨rfl, rfl, fun n hn => ?_, fun n hn => ?_⟩
    · unfold SharedPin at *
      rw [map?_addMap]
      split <;> simp [hn]
    · unfold SharedPin at *
      rw [map?_addMap] at hn
      split at hn
      · rename_i heq
        cases heq
        exact .inr hs
      · exact .inl hn
  | dropRefs h => exact absurd h hr
  | unshare h name => exact absurd h hr
  | pinMap h name x => exact pins_of_eq rfl rfl fun n => by rw [map?_addMap, if_neg (by simp)]
  | unpinMap h name => exact pins_of_eq rfl rfl fun n => by rw [map?_eraseMap, if_neg (by simp)]
  | rmdir h =>
    refine pins_of_eq (by rw [rmdir_store]) (by rw [rmdir_store]) fun n => ?_
    rw [map?, rmdir_mapPins]
    rfl
  | removeAll h =>
    exact pins_of_eq rfl rfl fun n => by rw [map?_removeAll, if_neg (by simp [MapPinPath.parent])]
  | _ => exact pins_of_eq rfl rfl fun _ => rfl

theorem Shared.pins (h : Shared C w) (hp : Pins S w w') (hS : ∀ name, S name → C name) :
    Shared C w' := by
  have href : ∀ name, w'.store.References name ↔ w.store.References name := fun name => by
    unfold References
    rw [hp.rows]
  refine ⟨fun name hn => hp.keeps name (h.pinned name ((href name).1 hn)), fun name hn => ?_⟩
  rcases hp.new name hn with hn | hn
  · exact (h.referenced name hn).imp_left (href name).2
  · exact .inr (hS name hn)

/-- When the names are pinned already, nothing is. -/
theorem Pins.narrow (h : Pins S w w') (hS : ∀ name, S name → w.SharedPin name) :
    Pins (fun _ => False) w w' :=
  ⟨h.rows, h.mapSets, h.keeps, fun name hn => .inl ((h.new name hn).elim (fun h => h) (hS name))⟩

/-- `Shared C` is kept and no map set is recorded. -/
structure KeepsShared (C : String → Prop) (w w' : World) : Prop where
  shared : Shared C w → Shared C w'
  mapSets : w'.store.mapSets ⊆ w.store.mapSets

instance : Std.Refl (KeepsShared C) := ⟨fun _ => ⟨fun h => h, List.Subset.refl _⟩⟩

instance : IsTrans World (KeepsShared C) := ⟨fun _ _ _ h h' =>
  ⟨fun hw => h'.shared (h.shared hw), List.Subset.trans h'.mapSets h.mapSets⟩⟩

theorem Pins.keepsShared (hp : Pins (fun _ => False) w w') : KeepsShared C w w' :=
  ⟨fun h => h.pins hp fun _ hf => hf.elim, fun _ hr => hp.mapSets ▸ hr⟩

/-! ## Releasing references -/

/-- The world without the references of `id` and without the pins they were the last for. -/
def World.release (w : World) (id : ProgramID) : World :=
  { w with
    store := (w.store.deleteSharedMapPins id).2
    mapPins := w.mapPins.filter (·.1 ∉ (w.store.deleteSharedMapPins id).1.map MapPinPath.shared) }

theorem cleanupSharedMapPins_of_releases (hr : Releases e) (id : ProgramID) (w : World) :
    cleanupSharedMapPins e id w = .ok () (w.release id) := by
  have hdel : deleteSharedMapPins e id w = .ok (w.store.deleteSharedMapPins id).1
      { w with store := (w.store.deleteSharedMapPins id).2 } :=
    prim_eq_ok.2 ⟨hr.deleteSharedMapPins id, rfl⟩
  unfold cleanupSharedMapPins
  rw [bind_of_ok hdel]
  have hforeach : ∀ (names : List String) (v : World),
      forEach (fun name => ignore (removeMapPin e (.shared name))) names v =
        .ok () { v with mapPins := v.mapPins.filter (·.1 ∉ names.map MapPinPath.shared) } := by
    intro names v
    rw [← foldl_eraseMap, foldl_map]
    refine forEach_of_ok (g := fun name (w : World) => w.eraseMap (.shared name)) fun name _ w => ?_
    have hrm : removeMapPin e (.shared name) w = .ok () (w.eraseMap (.shared name)) :=
      prim_eq_ok.2 ⟨hr.removeMap name, rfl⟩
    rw [ignore_apply, hrm]
    rfl
  exact hforeach _ _

theorem sharedPin_release {name : String} : (w.release id).SharedPin name ↔
    w.SharedPin name ∧ name ∉ (w.store.deleteSharedMapPins id).1 := by
  unfold World.SharedPin World.map? World.release
  rw [Table.lookup_drop (· ∈ (w.store.deleteSharedMapPins id).1.map MapPinPath.shared)]
  by_cases hmem : name ∈ (w.store.deleteSharedMapPins id).1 <;> simp [hmem]

theorem mem_orphaned {s : Store} {name : String} : name ∈ (s.deleteSharedMapPins id).1 ↔
    (∃ r ∈ s.sharedMapPins, r.programID = id ∧ r.mapName = name) ∧
      ¬ (s.deleteSharedMapPins id).2.References name := by
  simp [Store.deleteSharedMapPins, References, and_assoc, or_iff_not_imp_left]

theorem references_release {name : String} (h : w.store.References name) :
    (w.release id).store.References name ∨ name ∈ (w.store.deleteSharedMapPins id).1 := by
  obtain ⟨r, hr, hname⟩ := h
  by_cases href : (w.release id).store.References name
  · exact .inl href
  · refine .inr (mem_orphaned.2 ⟨⟨r, hr, ?_, hname⟩, href⟩)
    by_contra hid
    exact href ⟨r, mem_filter.2 ⟨hr, decide_eq_true hid⟩, hname⟩

/-- **Releasing the references of a program removes the pins that no other program references.** -/
theorem shared_release (h : Shared C w) : Shared C (w.release id) where
  pinned name hn := by
    obtain ⟨r, hr, hname⟩ := hn
    have hold : w.store.References name := ⟨r, (mem_filter.1 hr).1, hname⟩
    exact sharedPin_release.2
      ⟨h.pinned name hold, fun hmem => (mem_orphaned.1 hmem).2 ⟨r, hr, hname⟩⟩
  referenced name hn := by
    obtain ⟨hpin, hnot⟩ := sharedPin_release.1 hn
    exact (h.referenced name hpin).imp_left fun href => (references_release href).resolve_right hnot

theorem keepsShared_release (w : World) (id : ProgramID) : KeepsShared C w (w.release id) :=
  ⟨shared_release, Subset.refl _⟩

theorem noRefs_release (w : World) (id : ProgramID) : NoRefs id (w.release id).store := by
  intro r hr
  simpa using (mem_filter.1 hr).2

/-- Deleting the record of a program without references releases none. -/
theorem keepsShared_deleteProgramRecord (h : NoRefs id w.store) :
    KeepsShared C w (deleteProgramRecord e id w).state := by
  refine keeps_write (R := fun w w' => NoRefs id w.store → KeepsShared C w w')
    (fun w c _ => (pins_fail w c).keepsShared) (fun w s' hs h => ?_) w h
  obtain ⟨-, heq⟩ := deleteProgram_eq_ok hs
  have hrows : s'.sharedMapPins = w.store.sharedMapPins := by
    rw [heq]
    exact filter_eq_self.2 fun r hr => decide_eq_true (h r hr)
  have hsets : s'.mapSets = w.store.mapSets := by rw [heq]; rfl
  have hpins : Pins (fun _ => False) w { w with store := s' } := pins_of_eq hrows hsets fun _ => rfl
  exact hpins.keepsShared

/-! ## Unloading -/

theorem touched_keepsShared {α : Type} {m : M α} {D : ProgramID → Prop}
    (h : Keeps (Touched ⟨id, D, fun _ => False, False⟩) m) : Keeps (KeepsShared C) m :=
  h.mono fun _ _ ht => (ht.pins fun hf => hf).keepsShared

theorem keepsShared_removeProgramMapsPins (m : ProgramID) :
    Keeps (KeepsShared C) (removeProgramMapsPins e (.mapDir m)) :=
  touched_keepsShared (@touched_removeProgramMapsPins _ m (· = m) _ _ _ rfl)

theorem keepsShared_removeProgramBytecodeDir (id : ProgramID) :
    Keeps (KeepsShared C) (removeProgramBytecodeDir e id) :=
  touched_keepsShared (D := fun _ => False) touched_removeProgramBytecodeDir

theorem keepsShared_fail (w : World) (c : Call) : KeepsShared C w (w.fail c) :=
  (pins_fail w c).keepsShared

theorem keepsShared_executeReap (hr : Releases e) (id : ProgramID) :
    Keeps (KeepsShared C) (executeReapDeadProgramRecord e id) := by
  intro w
  rw [executeReap_eq]
  have hmaps := keepsShared_removeProgramMapsPins (e := e) (C := C) id w
  generalize (removeProgramMapsPins e (.mapDir id) w).state = w1 at hmaps ⊢
  unfold reapRecord
  rw [ignore_bind, cleanupSharedMapPins_of_releases hr, Outcome.state_ok]
  have hdel := keepsShared_deleteProgramRecord (C := C) (e := e) (noRefs_release w1 id)
  refine trans_of (KeepsShared C) hmaps (trans_of (KeepsShared C) (keepsShared_release w1 id) ?_)
  refine Keeps.bind_at (by rwa [attempt_state]) fun r w2 _ => ?_
  cases r with
  | ok u => exact (keepsShared_removeProgramBytecodeDir id).ignore w2
  | error er => exact refl_of (KeepsShared C) w2

theorem MapsUntouched.keepsShared (h : MapsUntouched w w') : KeepsShared C w w' := by
  have hp : Pins (fun _ => False) w w' := pins_of_eq h.sharedMapPins h.mapSets fun name => by
    unfold map?
    rw [h.mapPins]
  exact hp.keepsShared

theorem keepsShared_gcMapSetIfUnused (id m : ProgramID) :
    Keeps (KeepsShared C) (gcMapSetIfUnused e id (.mapDir m)) := by
  refine (keeps_query keepsShared_fail).mapErr.bind fun _ => (Keeps.pure ()).ite
    ((keepsShared_removeProgramMapsPins m).mapErr.bind fun _ =>
      (keeps_write keepsShared_fail fun w s' hd => ?_).mapErr)
  obtain ⟨-, rfl⟩ := deleteMapSet_eq_ok hd
  exact ⟨fun hw => ⟨hw.pinned, hw.referenced⟩, filter_subset_self _⟩

/-- The record goes once its references are released. -/
theorem keepsShared_release_of_noRefs {record : ProgramRecord} {m : ProgramID} (persisted : Bool)
    (hm : record.mapsDir = .mapDir m) (h : NoRefs record.programID w.store) :
    KeepsShared C w (release e record persisted w).state := by
  unfold Bpfman.release
  split
  · have hdel := keepsShared_deleteProgramRecord (C := C) (e := e) h
    refine Keeps.bind_at (by rwa [attempt_state]) fun r w1 _ => ?_
    cases r with
    | ok u =>
      rw [hm]
      exact ((keepsShared_gcMapSetIfUnused _ m).ignore.bind fun _ => .pure _) w1
    | error er => exact refl_of (KeepsShared C) w1
  · refine (Keeps.ite (Keeps.bind ?_ fun remove => ?_) (Keeps.pure ())).bind (fun _ => .pure _) w
    · refine (keeps_query keepsShared_fail).attempt.bind fun r => ?_
      cases r <;> exact .pure _
    · rw [hm]
      exact (keepsShared_removeProgramMapsPins m).ignore.ite (.pure ())

theorem keepsShared_unload (hr : Releases e) {record : ProgramRecord} {m : ProgramID}
    (hm : record.mapsDir = .mapDir m) (links : List LinkRecord) (persisted : Bool) :
    Keeps (KeepsShared C) (unload e record links persisted) := by
  refine ((mapsUntouched_detachAllLinks links).mono fun _ _ =>
    MapsUntouched.keepsShared).mapErr.bind fun rebuilt => ?_
  refine ((mapsUntouched_removePin _).mono fun _ _ => MapsUntouched.keepsShared).mapErr.bind
    fun _ w => ?_
  -- the references are released right before the record goes
  rw [ignore_bind, cleanupSharedMapPins_of_releases hr, Outcome.state_ok]
  refine trans_of (KeepsShared C) (keepsShared_release w record.programID) ?_
  refine Keeps.bind_at (keepsShared_release_of_noRefs persisted hm
    (noRefs_release w record.programID)) fun result w1 _ => ?_
  exact ((keepsShared_removeProgramBytecodeDir _).ignore.bind fun _ =>
    ((mapsUntouched_cleanupEmptyDispatchers _).mono fun _ _ => MapsUntouched.keepsShared).bind
      fun _ => .lift _) w1

/-- The map sets have map directories. -/
def Store.MapDirs (s : Store) : Prop := ∀ r ∈ s.mapSets, ∃ m, r.pinPath = .mapDir m

theorem keepsShared_unloadProgram (hr : Releases e) (hd : w.store.MapDirs) (id : ProgramID) :
    KeepsShared C w (unloadProgram e id w).state := by
  refine Keeps.bind_at ((keeps_query keepsShared_fail).mapErr.mapErr w) fun record w1 h => ?_
  obtain ⟨hp, rfl⟩ := getProgram_eq_ok (mapErr_eq_ok.1 h)
  obtain ⟨p, -, -, hrec⟩ := getProgram_rows hp
  obtain ⟨ms, hms, -, rfl⟩ := programRecord_eq_some hrec
  obtain ⟨m, hm⟩ := hd ms hms
  exact ((keeps_query keepsShared_fail).mapErr.bind fun links =>
    keepsShared_unload hr hm links true) w1

end Bpfman
