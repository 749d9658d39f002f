import Bpfman.LoadFrame

/-!
# Map directories

* `World.dropMaps` — what `removeProgramMapsPins` does when its calls work (`Unpins`);
* `SameSet` — the map directory of a program and the pins in it are as they were, kept by every
  operation on another program (`Touched.sameSet`).
-/

namespace Bpfman

open Fallible Proc World List

variable {e : Env} {w w' : World} {id o : ProgramID} {sc : Scope}

/-- The calls that unpin, and that remove directories, work. -/
structure Unpins (e : Env) : Prop where
  removeProg : ∀ p, e.fails (.removeProg p) = false
  removeMap : ∀ p, e.fails (.removeMap p) = false
  rmdir : ∀ d, e.fails (.rmdir d) = false
  removeAll : ∀ d, e.fails (.removeAll d) = false
  removeBytecode : ∀ id, e.fails (.removeBytecode id) = false

section Unpins

variable (hu : Unpins e)

include hu

theorem removeMapPin_of_unpins (q : MapPinPath) (w : World) :
    removeMapPin e q w = .ok () (w.eraseMap q) := prim_eq_ok.2 ⟨hu.removeMap q, rfl⟩

theorem removePin_of_unpins (p : ProgPinPath) (w : World) :
    removePin e p w = .ok () (w.eraseProg p) := prim_eq_ok.2 ⟨hu.removeProg p, rfl⟩

theorem removeAll_of_unpins (d : Dir) (w : World) :
    removeAll e d w = .ok () (w.removeAll d) := prim_eq_ok.2 ⟨hu.removeAll d, rfl⟩

theorem removeProgramBytecodeDir_of_unpins (id : ProgramID) (w : World) :
    removeProgramBytecodeDir e id w = .ok () { w with bytecode := w.bytecode.erase id } :=
  prim_eq_ok.2 ⟨hu.removeBytecode id, rfl⟩

end Unpins

/-! ## Removing a map directory -/

/-- The map directory of `id` removed with the pins in it, if it is there. -/
def World.dropMaps (w : World) (id : ProgramID) : World :=
  if .mapDir id ∈ w.dirs then
    { w with
      mapPins := w.mapPins.filter (·.1.parent ≠ .mapDir id)
      dirs := w.dirs.erase (.mapDir id) }
  else w

theorem foldl_eraseMap (qs : List MapPinPath) (w : World) :
    qs.foldl (fun w q => w.eraseMap q) w = { w with mapPins := w.mapPins.filter (·.1 ∉ qs) } := by
  induction qs generalizing w with
  | nil => simp
  | cons q qs ih =>
    rw [foldl_cons, ih]
    simp only [eraseMap, filter_filter, mem_cons, not_or, Bool.decide_and, Bool.and_comm]

theorem mapPins_filter_in (w : World) (d : Dir) :
    w.mapPins.filter (·.1 ∉ w.mapPinsIn d) = w.mapPins.filter (·.1.parent ≠ d) := by
  refine filter_congr fun x hx => ?_
  have hmem : x.1 ∈ w.mapPinsIn d ↔ x.1.parent = d := by
    refine ⟨mem_mapPinsIn, fun h => mem_filter.2 ⟨mem_map.2 ⟨x, hx, rfl⟩, by simp [h]⟩⟩
  simp [hmem]

theorem dirEmpty_mapDir (h : ∀ x ∈ w.mapPins, x.1.parent ≠ .mapDir id) :
    w.dirEmpty (.mapDir id) = true := by
  have hprog : ∀ p : ProgPinPath, p.parent ≠ .mapDir id :=
    fun p => by cases p <;> simp [ProgPinPath.parent]
  have hlink : ∀ p : LinkPath, p.parent ≠ .mapDir id :=
    fun p => by cases p <;> simp [LinkPath.parent]
  have hdir : ∀ d : Dir, d.parent ≠ some (.mapDir id) := fun d => by cases d <;> simp [Dir.parent]
  simp only [dirEmpty, Bool.and_eq_true, all_eq_true, decide_eq_true_eq]
  exact ⟨⟨⟨fun x _ => hprog x.1, fun x _ => hlink x.1⟩, h⟩, fun d _ => hdir d⟩

theorem removeProgramMapsPins_of_unpins (hu : Unpins e) (id : ProgramID) (w : World) :
    removeProgramMapsPins e (.mapDir id) w = .ok () (w.dropMaps id) := by
  unfold removeProgramMapsPins dropMaps
  rw [read_bind]
  split
  · rw [read_bind]
    have hrm : forEach (removeMapPin e) (w.mapPinsIn (.mapDir id)) w =
        .ok () { w with mapPins := w.mapPins.filter (·.1.parent ≠ .mapDir id) } := by
      rw [← mapPins_filter_in, ← foldl_eraseMap]
      exact forEach_of_ok fun q _ w => removeMapPin_of_unpins hu q w
    rw [bind_of_ok hrm]
    have hempty : dirEmpty
        { w with mapPins := w.mapPins.filter (·.1.parent ≠ .mapDir id) } (.mapDir id) = true :=
      dirEmpty_mapDir fun x hx => by simpa using (mem_filter.1 hx).2
    refine prim_eq_ok.2 ⟨hu.rmdir _, ?_⟩
    rw [if_pos hempty]
    unfold World.rmdir
    rw [if_pos hempty]
  · rfl

theorem forEach_removeMapPin {qs : List MapPinPath}
    (h : forEach (removeMapPin e) qs w = .ok () w') :
    w' = { w with mapPins := w.mapPins.filter (·.1 ∉ qs) } := by
  rw [← foldl_eraseMap]
  induction qs generalizing w with
  | nil =>
    cases h
    rfl
  | cons q qs ih =>
    obtain ⟨u, w1, h1, h2⟩ := bind_eq_ok.1 h
    obtain ⟨-, h1⟩ := prim_eq_ok.1 h1
    cases h1
    exact ih h2

theorem removeProgramMapsPins_eq_ok (h : removeProgramMapsPins e (.mapDir id) w = .ok () w') :
    w' = w.dropMaps id := by
  unfold removeProgramMapsPins at h
  unfold dropMaps
  rw [read_bind] at h
  split at h
  · rename_i hdir
    rw [read_bind] at h
    obtain ⟨u, w1, h1, h2⟩ := bind_eq_ok.1 h
    obtain rfl := forEach_removeMapPin h1
    obtain ⟨-, h2⟩ := prim_eq_ok.1 h2
    split at h2
    · rename_i hempty
      cases h2
      rw [mapPins_filter_in] at hempty
      rw [if_pos hdir, mapPins_filter_in]
      unfold World.rmdir
      rw [if_pos hempty]
    · cases h2
  · rename_i hdir
    cases h
    rw [if_neg hdir]

theorem map?_dropMaps (h : .mapDir id ∈ w.dirs) (q : MapPinPath) :
    (w.dropMaps id).map? q = if q.parent = .mapDir id then none else w.map? q := by
  unfold dropMaps
  rw [if_pos h]
  exact Table.lookup_drop (MapPinPath.parent · = .mapDir id) q

theorem mem_dropMaps {d : Dir} : d ∈ (w.dropMaps id).dirs ↔ d ∈ w.dirs ∧ d ≠ .mapDir id := by
  unfold dropMaps
  split
  · simp [and_comm]
  · rename_i h
    refine ⟨fun hd => ⟨hd, ?_⟩, And.left⟩
    rintro rfl
    exact h hd

theorem dropMaps_progPins (w : World) (id : ProgramID) : (w.dropMaps id).progPins = w.progPins := by
  unfold dropMaps
  split <;> rfl

theorem dropMaps_bytecode (w : World) (id : ProgramID) : (w.dropMaps id).bytecode = w.bytecode := by
  unfold dropMaps
  split <;> rfl

/-! ## The directories of other programs -/

/-- The map directory of `o` and the pins in it are as they were. -/
structure SameSet (o : ProgramID) (w w' : World) : Prop where
  pins : ∀ name, w'.map? (.map o name) = w.map? (.map o name)
  dir : .mapDir o ∈ w'.dirs ↔ .mapDir o ∈ w.dirs

instance : Std.Refl (SameSet o) := ⟨fun _ => ⟨fun _ => rfl, Iff.rfl⟩⟩

instance : IsTrans World (SameSet o) := ⟨fun _ _ _ h h' =>
  ⟨fun name => (h'.pins name).trans (h.pins name), h'.dir.trans h.dir⟩⟩

theorem sameSet_of_eq (hm : w'.mapPins = w.mapPins) (hd : w'.dirs = w.dirs) : SameSet o w w' :=
  ⟨fun name => by simp [map?, hm], by rw [hd]⟩

theorem sameSet_fail (w : World) (c : Call) : SameSet o w (w.fail c) := sameSet_of_eq rfl rfl

theorem sameSet_dropMaps (h : o ≠ id) (w : World) : SameSet o w (w.dropMaps id) := by
  refine ⟨fun name => ?_, by simp [mem_dropMaps, h]⟩
  by_cases hdir : .mapDir id ∈ w.dirs
  · rw [map?_dropMaps hdir, if_neg (by simp [MapPinPath.parent, h])]
  · rw [dropMaps, if_neg hdir]

/-- An operation that does not work on the directory of `o` leaves it alone. -/
theorem Touched.sameSet (h : Touched sc w w') (ho : ¬ sc.dirs o) : SameSet o w w' := by
  refine h.lift fun a b hab => ?_
  have hne : ∀ m, sc.dirs m → m ≠ o := fun m hm hmo => ho (hmo ▸ hm)
  cases hab with
  | pinMap h name x =>
    refine ⟨fun n => ?_, Iff.rfl⟩
    rw [map?_addMap, if_neg (by simp [(hne _ h).symm])]
  | unpinMap h name =>
    refine ⟨fun n => ?_, Iff.rfl⟩
    rw [map?_eraseMap, if_neg (by simp [(hne _ h).symm])]
  | mkdir h => exact ⟨fun n => rfl, by simp [World.mkdirAll, Dir.chain, (hne _ h).symm]⟩
  | rmdir h =>
    exact ⟨fun n => by simp [map?, rmdir_mapPins], mem_rmdir_of_ne (by simp [(hne _ h).symm])⟩
  | removeAll h =>
    refine ⟨fun n => ?_, by simp [World.removeAll, (hne _ h).symm]⟩
    rw [map?_removeAll, if_neg (by simp [MapPinPath.parent, (hne _ h).symm])]
  | mkdirShared h => exact ⟨fun n => rfl, by simp [World.mkdirAll, Dir.chain]⟩
  | share name x hs h =>
    refine ⟨fun n => ?_, Iff.rfl⟩
    rw [map?_addMap, if_neg (by simp)]
  | unshare h name =>
    refine ⟨fun n => ?_, Iff.rfl⟩
    rw [map?_eraseMap, if_neg (by simp)]
  | log c => exact sameSet_fail _ c
  | pinProg x => exact sameSet_of_eq rfl rfl
  | unpinProg => exact sameSet_of_eq rfl rfl
  | publish => exact sameSet_of_eq rfl rfl
  | unpublish => exact sameSet_of_eq rfl rfl
  | dropRefs h => exact sameSet_of_eq rfl rfl

/-- Nothing is pinned in the map directory of `o`. -/
def NoPins (o : ProgramID) (w : World) : Prop := ∀ name, w.map? (.map o name) = none

/-- Only the program `o` itself pins maps in its directory. -/
theorem Touched.noPins (h : Touched sc w w') (ho : sc.dirs sc.id → sc.id ≠ o) (hw : NoPins o w) :
    NoPins o w' := by
  induction h with
  | refl => exact hw
  | tail _ hab ih =>
    intro n
    have hb := ih n
    cases hab with
    | pinMap h name x => rwa [map?_addMap, if_neg (by simp [(ho h).symm])]
    | share name x hs h => rwa [map?_addMap, if_neg (by simp)]
    | unpinMap h name =>
      rw [map?_eraseMap]
      split <;> simp [hb]
    | unshare h name => rwa [map?_eraseMap, if_neg (by simp)]
    | removeAll h =>
      rw [map?_removeAll]
      split <;> simp [hb]
    | rmdir h => rwa [map?, rmdir_mapPins]
    | _ => exact hb

end Bpfman
