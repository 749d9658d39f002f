import Bpfman.MapDir

/-!
# What detaching leaves alone

Detaching links, rebuilding and removing dispatchers never touch the maps or the programs: the rows
of programs, map sets and references to shared maps, the map pins and their directories, and the
bytecode stay as they are (`MapsUntouched`), wherever the operation stops.
-/

namespace Bpfman

open Fallible Proc

variable {e : Env} {w w' : World} {key : Key}

/-- Nothing about maps and programs changed. -/
structure MapsUntouched (w w' : World) : Prop where
  programs : w'.store.programs = w.store.programs
  mapSets : w'.store.mapSets = w.store.mapSets
  sharedMapPins : w'.store.sharedMapPins = w.store.sharedMapPins
  mapPins : w'.mapPins = w.mapPins
  dir : ∀ s, .mapDir s ∈ w'.dirs ↔ .mapDir s ∈ w.dirs
  bytecode : w'.bytecode = w.bytecode

instance : Std.Refl MapsUntouched := ⟨fun _ => ⟨rfl, rfl, rfl, rfl, fun _ => Iff.rfl, rfl⟩⟩

instance : IsTrans World MapsUntouched := ⟨fun _ _ _ h h' =>
  ⟨h'.programs.trans h.programs, h'.mapSets.trans h.mapSets, h'.sharedMapPins.trans h.sharedMapPins,
    h'.mapPins.trans h.mapPins, fun s => (h'.dir s).trans (h.dir s), h'.bytecode.trans h.bytecode⟩⟩

theorem mapsUntouched_fail (w : World) (c : Call) : MapsUntouched w (w.fail c) :=
  { refl_of MapsUntouched w with programs := rfl }

theorem At.mapsUntouched (h : At key w w') : MapsUntouched w w' :=
  ⟨h.programs, h.mapSets, h.sharedMapPins, h.mapPins, fun s => h.dirs (.mapDir s) trivial,
    h.bytecode⟩

theorem mapsUntouched_detachLink (p : LinkPath) : Keeps MapsUntouched (detachLink e p) := by
  refine .bind (keeps_prim mapsUntouched_fail fun w =>
    .some { refl_of MapsUntouched w with programs := rfl }) fun _ =>
    .ite (.ignore (keeps_prim mapsUntouched_fail fun w => .some ?_)) (.pure ())
  have hdir : ∀ s, Dir.mapDir s ≠ p.parent := fun s => by cases p <;> simp [LinkPath.parent]
  exact ⟨by rw [rmdir_store], by rw [rmdir_store], by rw [rmdir_store], rmdir_mapPins w _,
    fun s => mem_rmdir_of_ne (hdir s), rmdir_bytecode w _⟩

theorem mapsUntouched_removePin (p : ProgPinPath) : Keeps MapsUntouched (removePin e p) :=
  keeps_prim mapsUntouched_fail fun w => .some { refl_of MapsUntouched w with programs := rfl }

theorem mapsUntouched_rebuild (key : Key) (id : LinkID) :
    Keeps MapsUntouched (rebuildDispatcherForDetach e key id) :=
  (keeps_at_rebuildDispatcherForDetach key id).mono fun _ _ => At.mapsUntouched

theorem mapsUntouched_detachAllLinks (links : List LinkRecord) :
    Keeps MapsUntouched (detachAllLinks e links) := by
  induction links with
  | nil => exact Keeps.pure _
  | cons link links ih =>
    unfold detachAllLinks
    split
    · exact ih
    · refine (mapsUntouched_detachLink _).mapErr.bind fun _ => ?_
      split
      · exact ih
      · exact (mapsUntouched_rebuild _ _).mapErr.bind fun _ => ih.bind fun _ => Keeps.pure _

theorem mapsUntouched_cleanupEmptyDispatchers (keys : List Key) :
    Keeps MapsUntouched (cleanupEmptyDispatchers e keys) :=
  Keeps.forEach fun _ _ => ((keeps_query mapsUntouched_fail).mapErr.bind fun _ =>
    (Keeps.pure ()).ite (keeps_at_removeEmptyDispatcher.mono fun _ _ =>
      At.mapsUntouched)).ignore

theorem mapsUntouched_deleteLink (id : LinkID) : Keeps MapsUntouched (deleteLink e id) := by
  refine keeps_primErr mapsUntouched_fail fun w _ w' h => ?_
  rw [deleteLink_eq_ok h]
  exact { refl_of MapsUntouched w with programs := rfl }

theorem mapsUntouched_detach (id : LinkID) : Keeps MapsUntouched (detach e id) := by
  rw [detach_eq]
  refine (keeps_query mapsUntouched_fail).mapErr.bind fun record => Keeps.bind ?_ fun _ => ?_
  · unfold detachPin
    split
    · exact mapsUntouched_detachLink _
    · exact Keeps.pure ()
  · unfold detachStoreAction
    split
    · exact mapsUntouched_rebuild _ _
    · exact mapsUntouched_deleteLink _

end Bpfman
