import Bpfman.MapOwner
import Bpfman.Relog

/-!
# The rollback of a batch

* `Clear` — nothing of a program is on the machine, `FreshIDs` — the ids the kernel gives a batch
  are not in use;
* `clear_loadOne_err` — a program that could not be loaded leaves nothing behind;
* `unloadLoaded_state` — what unloading a program of the batch leaves: its map directory, when the
  store cannot say whether the map set is recorded.
-/

namespace Bpfman

open Fallible Proc World

variable {e : Env} {w w' : World} {i : Nat} {spec : LoadSpec} {id x : ProgramID} {sc : Scope}
  {err : Err}

/-! ## The parts of a program -/

/-- Nothing of program `id` is on the machine. -/
structure Clear (id : ProgramID) (w : World) : Prop where
  prog : w.prog? (.prog id) = none
  dir : .mapDir id ∉ w.dirs
  pins : NoPins id w
  bytecode : id ∉ w.bytecode

/-- The pin, the map directory and the bytecode of `x` are as they were. -/
structure SameProgram (x : ProgramID) (w w' : World) : Prop where
  prog : w'.prog? (.prog x) = w.prog? (.prog x)
  set : SameSet x w w'
  bytecode : x ∈ w'.bytecode ↔ x ∈ w.bytecode

instance : Std.Refl (SameProgram x) := ⟨fun w => ⟨rfl, refl_of (SameSet x) w, Iff.rfl⟩⟩

instance : IsTrans World (SameProgram x) := ⟨fun _ _ _ h h' =>
  ⟨h'.prog.trans h.prog, trans_of (SameSet x) h.set h'.set, h'.bytecode.trans h.bytecode⟩⟩

theorem SameProgram.clear (h : SameProgram x w w') (hc : Clear x w) : Clear x w' where
  prog := h.prog.trans hc.prog
  dir := fun hd => hc.dir (h.set.dir.1 hd)
  pins := fun name => (h.set.pins name).trans (hc.pins name)
  bytecode := fun hb => hc.bytecode (h.bytecode.1 hb)

theorem sameProgram_of_store (s : Store) (l : List Call) (w : World) :
    SameProgram x w { w with store := s, failed := l } := ⟨rfl, sameSet_of_eq rfl rfl, Iff.rfl⟩

/-- An operation on another program that does not work on the directory of `x`. -/
theorem Touched.sameProgram (h : Touched sc w w') (hne : sc.id ≠ x) (hd : ¬ sc.dirs x) :
    SameProgram x w w' := by
  refine ⟨?_, h.sameSet hd, ?_⟩
  · induction h with
    | refl => rfl
    | tail _ hab ih =>
      refine Eq.trans ?_ ih
      cases hab with
      | pinProg y => rw [prog?_addProg, if_neg (by simp [hne.symm])]
      | unpinProg => rw [prog?_eraseProg, if_neg (by simp [hne.symm])]
      | removeAll h => rw [prog?_removeAll, if_neg (by simp [ProgPinPath.parent])]
      | rmdir h => rw [prog?, rmdir_progPins]; rfl
      | _ => rfl
  · induction h with
    | refl => rfl
    | tail _ hab ih =>
      refine Iff.trans ?_ ih
      cases hab with
      | publish => simp [hne.symm]
      | unpublish => simp [hne.symm]
      | rmdir h => rw [rmdir_bytecode]
      | _ => rfl

/-! ## A program that cannot be loaded -/

theorem unpinLoaded_of_unpins (hu : Unpins e) (id : ProgramID) (pinned : List String) (w : World) :
    unpinLoaded e id pinned w = .ok () (eraseProg
      { w with mapPins := w.mapPins.filter (·.1 ∉ pinned.reverse.map (MapPinPath.map id)) }
      (.prog id)) := by
  have hmaps : forEach (fun name => ignore (removeMapPin e (.map id name))) pinned.reverse
      w = .ok () { w with
        mapPins := w.mapPins.filter (·.1 ∉ pinned.reverse.map (MapPinPath.map id)) } := by
    rw [← foldl_eraseMap, List.foldl_map]
    refine forEach_of_ok (g := fun name (w : World) => w.eraseMap (.map id name)) fun name _ w => ?_
    rw [ignore_apply, removeMapPin_of_unpins hu]
    rfl
  unfold unpinLoaded
  rw [bind_of_ok hmaps, ignore_apply, removePin_of_unpins hu]
  rfl

/-- A program that pinned no maps is cleared by unpinning it. -/
theorem clear_unpinLoaded (hu : Unpins e) (hdir : .mapDir id ∉ w.dirs) (hpins : NoPins id w)
    (hb : id ∉ w.bytecode) : Clear id (unpinLoaded e id [] w).state := by
  rw [unpinLoaded_of_unpins hu]
  refine ⟨?_, hdir, fun name => ?_, hb⟩
  · rw [Outcome.state_ok, prog?_eraseProg, if_pos rfl]
  · have := hpins name
    simpa [eraseProg, map?] using this

/-- A program that owns its directory is cleared whatever it pinned. -/
theorem clear_discardLoaded (hu : Unpins e) (pinned : List String) (hb : id ∉ w.bytecode) :
    Clear id (discardLoaded e id pinned w).state := by
  unfold discardLoaded
  rw [bind_of_ok (unpinLoaded_of_unpins hu id pinned w), ignore_apply, removeAll_of_unpins hu]
  refine ⟨?_, by simp [World.removeAll], fun name => ?_, hb⟩
  · rw [Outcome.state_ok, Outcome.state_ok, prog?_removeAll,
      if_neg (by simp [ProgPinPath.parent]), prog?_eraseProg, if_pos rfl]
  · rw [Outcome.state_ok, Outcome.state_ok, map?_removeAll]
    exact if_pos rfl

theorem pinMap_eq_ok {q : MapPinPath} {f : World → MapID} (h : pinMap e q f w = .ok () w') :
    w.map? q = none ∧ w' = w.addMap q (f w) := by
  obtain ⟨hnone, ⟨⟩⟩ := Option.ite_none_left_eq_some.1 (prim_eq_ok.1 h).2
  exact ⟨by simpa using hnone, rfl⟩

theorem pinMaps_eq_ok {ms : List MapSpec} {pinned : List String}
    (h : pinMaps e i id pinned ms w = .ok () w') : w'.dirs = w.dirs ∧ w'.bytecode = w.bytecode ∧
      ∀ q, (w.map? q).isSome → (w'.map? q).isSome := by
  induction ms generalizing pinned w with
  | nil =>
    cases h
    exact ⟨rfl, rfl, fun _ hq => hq⟩
  | cons m ms ih =>
    obtain ⟨u, w1, h1, h2⟩ := bind_eq_ok.1 h
    obtain ⟨-, rfl⟩ := pinMap_eq_ok (mapErr_eq_ok.1 (onErr_eq_ok.1 h1))
    obtain ⟨hd, hb, hpins⟩ := ih h2
    refine ⟨hd, hb, fun q hq => hpins q ?_⟩
    rw [World.map?_addMap]
    split
    · rfl
    · exact hq

theorem clear_pinMaps_err (hu : Unpins e) {ms : List MapSpec} {pinned : List String}
    (hb : id ∉ w.bytecode) (h : pinMaps e i id pinned ms w = .err err w') : Clear id w' := by
  induction ms generalizing pinned w with
  | nil => cases h
  | cons m ms ih =>
    rcases bind_eq_err.1 h with h | ⟨u, w1, h1, h2⟩
    · obtain ⟨w1, h1, rfl⟩ := onErr_eq_err.1 h
      obtain ⟨er, h1, -⟩ := mapErr_eq_err.1 h1
      obtain ⟨-, -, rfl⟩ := prim_eq_err.1 h1
      exact clear_discardLoaded hu pinned hb
    · obtain ⟨-, rfl⟩ := pinMap_eq_ok (mapErr_eq_ok.1 (onErr_eq_ok.1 h1))
      refine ih ?_ h2
      exact hb

theorem pinOwnMaps_eq_ok (h : pinOwnMaps e i id spec w = .ok () w') :
    e.fails (.mkdirAll (.mapDir id)) = false ∧
      pinMaps e i id [] spec.maps (w.mkdirAll (.mapDir id)) = .ok () w' := by
  obtain ⟨u, w1, h1, h2⟩ := bind_eq_ok.1 h
  obtain ⟨hf, h1⟩ := prim_eq_ok.1 (mapErr_eq_ok.1 (onErr_eq_ok.1 h1))
  cases h1
  exact ⟨hf, h2⟩

theorem pinOwnMaps_eq_err (h : pinOwnMaps e i id spec w = .err err w') :
    (e.fails (.mkdirAll (.mapDir id)) = true ∧
      w' = (unpinLoaded e id [] (w.fail (.mkdirAll (.mapDir id)))).state) ∨
    (e.fails (.mkdirAll (.mapDir id)) = false ∧
      pinMaps e i id [] spec.maps (w.mkdirAll (.mapDir id)) = .err err w') := by
  rcases bind_eq_err.1 h with h | ⟨u, w1, h1, h2⟩
  · obtain ⟨w1, h1, rfl⟩ := onErr_eq_err.1 h
    obtain ⟨er, h1, -⟩ := mapErr_eq_err.1 h1
    obtain ⟨hf, -, rfl⟩ := prim_eq_err.1 h1
    exact .inl ⟨hf.resolve_right (by simp), rfl⟩
  · obtain ⟨hf, h1⟩ := prim_eq_ok.1 (mapErr_eq_ok.1 (onErr_eq_ok.1 h1))
    cases h1
    exact .inr ⟨hf, h2⟩

theorem mem_mkdirAll_mapDir (w : World) (id : ProgramID) :
    .mapDir id ∈ (w.mkdirAll (.mapDir id)).dirs := by
  simp [World.mkdirAll, Dir.chain]

theorem clear_pinOwnMaps_err (hu : Unpins e) (hdir : .mapDir id ∉ w.dirs) (hpins : NoPins id w)
    (hb : id ∉ w.bytecode) (h : pinOwnMaps e i id spec w = .err err w') : Clear id w' := by
  rcases pinOwnMaps_eq_err h with ⟨-, rfl⟩ | ⟨-, hpin⟩
  · exact clear_unpinLoaded hu hdir hpins hb
  · refine clear_pinMaps_err hu ?_ hpin
    exact hb

theorem sameProgram_fail (w : World) (c : Call) : SameProgram x w (w.fail c) :=
  ⟨rfl, sameSet_fail w c, Iff.rfl⟩

theorem sameProgram_loadCollection : Keeps (SameProgram x) (loadCollection e i spec) :=
  (@touched_loadCollection _ _ _ (x + 1) (fun _ => False) (fun _ => True) False
    fun _ _ _ => trivial).mono fun _ _ ht => ht.sameProgram (Nat.succ_ne_self x) id

theorem clear_pinLoaded (hc : Clear id w) :
    .mapDir id ∉ (w.pinLoaded id).dirs ∧ NoPins id (w.pinLoaded id) ∧
      id ∉ (w.pinLoaded id).bytecode := ⟨hc.dir, hc.pins, hc.bytecode⟩

theorem pinProgramMaps_eq_ok (h : pinProgramMaps e i id spec w = .ok () w') :
    (spec.mapOwnerID = 0 → .mapDir id ∈ w'.dirs) ∧ (spec.mapOwnerID ≠ 0 → w' = w) ∧
      w'.bytecode = w.bytecode := by
  unfold pinProgramMaps at h
  split at h
  · rename_i h0
    obtain ⟨hd, hb, -⟩ := pinMaps_eq_ok (pinOwnMaps_eq_ok h).2
    exact ⟨fun _ => hd ▸ mem_mkdirAll_mapDir w id, fun hne => absurd h0 hne, hb⟩
  · rename_i h0
    cases h
    exact ⟨fun hz => absurd hz h0, fun _ => rfl, rfl⟩

theorem clear_kernelLoad_err (hu : Unpins e) (hc : Clear (e.loadID i) w)
    (h : kernelLoad e i spec w = .err err w') : Clear (e.loadID i) w' := by
  rcases kernelLoad_eq_err h with ⟨er, hcol⟩ | ⟨w1, hcol, hcases⟩
  · exact (sameProgram_loadCollection.err hcol).clear hc
  have hc1 : Clear (e.loadID i) w1 := (sameProgram_loadCollection.ok hcol).clear hc
  obtain ⟨hdir, hpins, hb⟩ := clear_pinLoaded hc1
  rcases hcases with ⟨-, rfl⟩ | ⟨-, ⟨er, hm⟩ | ⟨w2, -, hm, rfl⟩⟩
  · exact (sameProgram_fail w1 _).clear hc1
  · unfold pinProgramMaps at hm
    split at hm
    · exact clear_pinOwnMaps_err hu hdir hpins hb hm
    · cases hm
  · obtain ⟨-, hjoin, hb2⟩ := pinProgramMaps_eq_ok hm
    unfold abandonLoad
    split
    · refine clear_discardLoaded hu _ ?_
      change _ ∉ w2.bytecode
      rw [hb2]
      exact hb
    · rename_i h0
      obtain rfl := hjoin h0
      exact clear_unpinLoaded hu hdir hpins hb

/-- Unpinning a program and removing a map directory clears it, when that directory is its own or it
has none. -/
theorem clear_dropMaps {m : ProgramID}
    (h : (m = id ∧ .mapDir id ∈ w.dirs) ∨ (.mapDir id ∉ w.dirs ∧ NoPins id w))
    (hb : id ∉ w.bytecode) : Clear id ((w.eraseProg (.prog id)).dropMaps m) where
  prog := by
    rw [prog?, dropMaps_progPins]
    exact (prog?_eraseProg _ _).trans (if_pos rfl)
  dir := by
    rw [mem_dropMaps]
    rintro ⟨hmem, hne⟩
    rcases h with ⟨rfl, -⟩ | ⟨hdir, -⟩
    · exact hne rfl
    · exact hdir hmem
  pins := by
    rcases h with ⟨rfl, hdir⟩ | ⟨-, hpins⟩
    · exact noPins_dropMaps hdir
    · exact staysEmpty_dropMaps _ hpins
  bytecode := by
    rw [dropMaps_bytecode]
    exact hb

/-- What a loaded program has on the machine: its map directory, if it owns its maps. -/
def Placed (id : ProgramID) (spec : LoadSpec) (w : World) : Prop :=
  (spec.mapOwnerID = 0 ∧ .mapDir id ∈ w.dirs) ∨
    (spec.mapOwnerID ≠ 0 ∧ .mapDir id ∉ w.dirs ∧ NoPins id w)

theorem SameProgram.placed (h : SameProgram x w w') (hp : Placed x spec w) : Placed x spec w' :=
  hp.imp (fun ⟨h0, hd⟩ => ⟨h0, h.set.dir.2 hd⟩) fun ⟨h0, hd, hpins⟩ =>
    ⟨h0, fun hd' => hd (h.set.dir.1 hd'), fun name => (h.set.pins name).trans (hpins name)⟩

theorem placed_kernelLoad {out : LoadOutput} (hc : Clear (e.loadID i) w)
    (h : kernelLoad e i spec w = .ok out w') :
    Placed (e.loadID i) spec w' ∧ e.loadID i ∉ w'.bytecode := by
  obtain ⟨-, w0, hcol, -, hm⟩ := kernelLoad_eq_ok h
  have hc0 : Clear (e.loadID i) w0 := (sameProgram_loadCollection.ok hcol).clear hc
  obtain ⟨hdir, hjoin, hb⟩ := pinProgramMaps_eq_ok hm
  refine ⟨?_, fun hmem => hc0.bytecode (by rwa [hb] at hmem)⟩
  by_cases h0 : spec.mapOwnerID = 0
  · exact .inl ⟨h0, hdir h0⟩
  · obtain rfl := hjoin h0
    exact .inr ⟨h0, hc0.dir, hc0.pins⟩

theorem placed_loadOne {item : ProgramRecord × List String} (hc : Clear (e.loadID i) w)
    (h : loadOne e i spec w = .ok item w') : Placed (e.loadID i) spec w' := by
  obtain ⟨-, w1, hk, hp⟩ := loadOne_eq_ok.1 h
  obtain ⟨-, hp⟩ := prim_eq_ok.1 hp
  split at hp
  · cases hp
  · cases hp
    exact (placed_kernelLoad hc hk).1

theorem clear_loadOne_err (hu : Unpins e) (hc : Clear (e.loadID i) w)
    (h : loadOne e i spec w = .err err w') : Clear (e.loadID i) w' := by
  rcases loadOne_eq_err h with ⟨er, hk⟩ | ⟨w1, w2, hk, hp, rfl⟩
  · exact clear_kernelLoad_err hu hc hk
  · obtain ⟨hplaced, hb⟩ := placed_kernelLoad hc hk
    obtain ⟨-, -, rfl⟩ := prim_eq_err.1 hp
    rw [undoLoad_of_unpins hu]
    refine clear_dropMaps ?_ hb
    exact hplaced.imp (fun ⟨h0, hd⟩ => ⟨if_pos h0, hd⟩) And.right

/-! ## Unloading a program of the batch -/

/-- Only the log differs. -/
def OnLog (w w' : World) : Prop := w' = w.withLog w'.failed

/-- A program without references to shared maps has none to release. -/
theorem cleanupSharedMapPins_of_noRefs (hr : NoRefs id w.store) :
    OnLog w (cleanupSharedMapPins e id w).state := by
  unfold cleanupSharedMapPins
  rw [bind_apply]
  cases h : deleteSharedMapPins e id w with
  | err er w1 =>
    obtain ⟨-, -, rfl⟩ := prim_eq_err.1 h
    rfl
  | ok names w1 =>
    obtain ⟨-, h⟩ := prim_eq_ok.1 h
    rw [deleteSharedMapPins_of_noRefs hr] at h
    cases h
    rfl

/-- Whether unloading a program of the batch removes its map directory: the program owns its maps
and the store says that no set of its id is recorded. -/
def removesMaps (e : Env) (id : ProgramID) (spec : LoadSpec) (s : Store) : Bool :=
  spec.mapSetID id = id && !e.fails (.mapSetExists id) && !s.mapSetExists id

theorem shouldRemove_eq (e : Env) (id : ProgramID) (w : World) :
    shouldRemoveNonPersistedSelfOwnedMapPins e id w =
      if e.fails (.mapSetExists id) then .ok false (w.fail (.mapSetExists id))
      else .ok (!w.store.mapSetExists id) w := by
  unfold shouldRemoveNonPersistedSelfOwnedMapPins
  rw [bind_apply, attempt, mapSetExists_eq]
  cases e.fails (.mapSetExists id) <;> rfl

theorem removeUnrecordedMaps_of_unpins (hu : Unpins e) (i : Nat) (spec : LoadSpec) (w : World) :
    ∃ w', removeUnrecordedMaps e (loadedRecord e i spec) w = .ok () w' ∧
      OnLog (if removesMaps e (e.loadID i) spec w.store then w.dropMaps (e.loadID i) else w)
      w' := by
  have hdir : (loadedRecord e i spec).mapsDir = .mapDir (spec.mapSetID (e.loadID i)) := rfl
  unfold removeUnrecordedMaps removesMaps
  rw [loadedRecord_mapSetID, loadedRecord_programID, hdir]
  by_cases hself : spec.mapSetID (e.loadID i) = e.loadID i
  · rw [if_pos hself, hself, bind_apply, shouldRemove_eq]
    cases e.fails (.mapSetExists (e.loadID i)) with
    | true => simp [OnLog, World.fail, World.withLog]
    | false =>
      cases w.store.mapSetExists (e.loadID i) with
      | true => simp [OnLog, withLog]
      | false => simp [OnLog, withLog, removeProgramMapsPins_of_unpins hu]
  · rw [if_neg hself]
    simp [OnLog, withLog, hself]

theorem dropMaps_withLog (w : World) (id : ProgramID) (l : List Call) :
    (w.withLog l).dropMaps id = (w.dropMaps id).withLog l := by
  unfold dropMaps withLog
  split <;> rfl

/-- The world without the pin and the bytecode of `id` and, if `maps`, its map directory. -/
def World.takeDown (w : World) (id : ProgramID) (maps : Bool) : World :=
  let w₁ := if maps then (w.eraseProg (.prog id)).dropMaps id else w.eraseProg (.prog id)
  { w₁ with bytecode := w₁.bytecode.erase id }

theorem unloadLoaded_state (hu : Unpins e) (hr : NoRefs (e.loadID i) w.store) :
    OnLog (w.takeDown (e.loadID i) (removesMaps e (e.loadID i) spec w.store))
      (unload e (loadedRecord e i spec) [] false w).state := by
  have hshare := cleanupSharedMapPins_of_noRefs (e := e) (w := w.eraseProg (.prog (e.loadID i))) hr
  obtain ⟨w1, hw1⟩ : ∃ w1,
    (cleanupSharedMapPins e (e.loadID i) (w.eraseProg (.prog (e.loadID i)))).state = w1 := ⟨_, rfl⟩
  rw [hw1] at hshare
  obtain ⟨w2, hw2, hmaps⟩ := removeUnrecordedMaps_of_unpins hu i spec w1
  have hstate : (unload e (loadedRecord e i spec) [] false w).state =
      { w2 with bytecode := w2.bytecode.erase (e.loadID i) } := by
    have hlinks : detachAllLinks e [] w = .ok [] w := rfl
    have hrelease : release e (loadedRecord e i spec) false w1 = .ok (.ok ()) w2 := bind_of_ok hw2
    have hbytecode := removeProgramBytecodeDir_of_unpins hu (e.loadID i) w2
    rw [unload_eq, bind_of_ok (mapErr_eq_ok.2 hlinks)]
    unfold unloadRest
    rw [bind_of_ok (mapErr_eq_ok.2 (removePin_of_unpins hu _ w)), ignore_bind]
    erw [hw1]
    rw [bind_of_ok hrelease, ignore_bind]
    erw [hbytecode]
    rfl
  rw [hstate]
  have hstore : w1.store = w.store := by rw [hshare]; rfl
  rw [hstore] at hmaps
  cases hrm : removesMaps e (e.loadID i) spec w.store with
  | true =>
    rw [hrm, if_pos rfl, hshare, dropMaps_withLog] at hmaps
    rw [hmaps]
    rfl
  | false =>
    rw [hrm, if_neg Bool.false_ne_true, hshare] at hmaps
    rw [hmaps]
    rfl

end Bpfman
