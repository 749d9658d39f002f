import Bpfman.LoadStop

/-!
# A program id that is given out again

A map set outlives the program that owned it while other programs use it. The kernel may give the
freed id to a program of a later batch, whose own map directory is then the directory of the set.

* `Overwrites`, `loadOne_sameSet`, `loadOne_overwrites` — when loading that program changes the
  directory: if it gets as far as making it, and declares maps or fails after that;
* `commit_refused` — a program that owns its maps is not committed over the set;
* `reuse_fails_closed_iff` — when a load that reuses the id fails and leaves the set as it was.
-/

namespace Bpfman

open Fallible Proc List

variable {e : Env} {w w' w₁ w₂ : World} {i j : Nat} {spec : LoadSpec} {specs pre : List LoadSpec}

variable {ms : List MapSpec} {pinned : List String}
  {id s : ProgramID} {items : List (ProgramRecord × List String)} {err : Err}

/-! ## The directory of a set -/

/-- Directories only go. -/
def DirsGo (w w' : World) : Prop := w'.dirs ⊆ w.dirs

instance : Std.Refl DirsGo := ⟨fun _ => Finset.Subset.refl _⟩

instance : IsTrans World DirsGo := ⟨fun _ _ _ h h' => Finset.Subset.trans h' h⟩

theorem dirsGo_fail (w : World) (c : Call) : DirsGo w (w.fail c) := Finset.Subset.refl _

theorem dirsGo_rmdir (w : World) (d : Dir) : DirsGo w (w.rmdir d) := by
  unfold World.rmdir
  split
  · exact Finset.erase_subset _ _
  · exact Finset.Subset.refl _

theorem dirsGo_removeMapPin (q : MapPinPath) : Keeps DirsGo (removeMapPin e q) :=
  keeps_prim dirsGo_fail fun _ => .some (Finset.Subset.refl _)

theorem dirsGo_removeProgramMapsPins (d : Dir) : Keeps DirsGo (removeProgramMapsPins e d) :=
  keeps_removeProgramMapsPins dirsGo_fail dirsGo_removeMapPin (dirsGo_rmdir · d)

theorem Touched.dirsGo {U : Prop} (h : Touched ⟨id, fun _ => False, fun _ => False, U⟩ w w') :
    DirsGo w w' := by
  refine h.lift fun _ _ hab => ?_
  cases hab with
  | mkdir h | rmdir h | removeAll h => exact h.elim
  | mkdirShared h => exact h.elim fun _ h => h.elim
  | _ => exact Finset.Subset.refl _

theorem dirsGo_unloadLoaded : Keeps DirsGo (unload e (loadedRecord e i spec) [] false) := by
  refine keeps_unloadLoaded (fun _ _ => Touched.dirsGo) ?_
  unfold removeUnrecordedMaps
  refine .ite (.bind ((keeps_query dirsGo_fail).attempt.bind fun found => ?_) fun remove =>
    .ite (dirsGo_removeProgramMapsPins _).ignore (.pure ())) (.pure ())
  cases found <;> exact .pure _

/-! ## Loading a program over a set -/

/-- Loading the `i`-th program changes the map directory of its id, if that is there: the program
owns its maps, gets as far as making the directory, and declares maps or fails after it. -/
def Overwrites (e : Env) (i : Nat) (spec : LoadSpec) (w : World) : Prop :=
  spec.mapOwnerID = 0 ∧ ∃ w₁, loadCollection e i spec w = .ok () w₁ ∧
    Pinnable e (e.loadID i) w₁ ∧ e.fails (.mkdirAll (.mapDir (e.loadID i))) = false ∧
    (spec.maps ≠ [] ∨ e.fails (.progInfo (e.loadID i)) = true ∨
      e.fails (.publishBytecode (e.loadID i)) = true ∨ e.loadID i ∈ w₁.bytecode)

theorem sameSet_loadCollection : Keeps (SameSet s) (loadCollection e i spec) :=
  sameProgram_loadCollection.mono fun _ _ h => h.set

theorem discardLoaded_dir (hu : Unpins e) (id : ProgramID) (pinned : List String) (w : World) :
    .mapDir id ∉ (discardLoaded e id pinned w).state.dirs := by
  unfold discardLoaded
  rw [bind_of_ok (unpinLoaded_of_unpins hu id pinned w), ignore_apply, removeAll_of_unpins hu]
  simp [World.removeAll]

theorem sameSet_unpinLoaded_nil : Keeps (SameSet s) (unpinLoaded e id []) :=
  sameSet_of_wide (D := fun _ => False) (touched_unpinLoaded fun h => absurd rfl h) fun h => h

/-- Maps that cannot all be pinned take the directory with them. -/
theorem pinMaps_err_dir (hu : Unpins e)
    (h : pinMaps e i id pinned ms w = .err err w') : ms ≠ [] ∧ .mapDir id ∉ w'.dirs := by
  induction ms generalizing pinned w with
  | nil => cases h
  | cons m ms ih =>
    refine ⟨by simp, ?_⟩
    rcases bind_eq_err.1 h with h | ⟨u, w₁, h1, h2⟩
    · obtain ⟨w₁, -, rfl⟩ := onErr_eq_err.1 h
      exact discardLoaded_dir hu id pinned w₁
    · exact (ih h2).2

/-- The first map was not pinned before. -/
theorem pinMaps_ok_new {m : MapSpec} (h : pinMaps e i id pinned (m :: ms) w = .ok () w') :
    w.map? (.map id m.name) = none ∧ (w'.map? (.map id m.name)).isSome := by
  obtain ⟨u, w₁, h1, h2⟩ := bind_eq_ok.1 h
  obtain ⟨hnone, rfl⟩ := pinMap_eq_ok (mapErr_eq_ok.1 (onErr_eq_ok.1 h1))
  refine ⟨hnone, (pinMaps_eq_ok h2).2.2 _ ?_⟩
  rw [World.map?_addMap, if_pos rfl]
  rfl

theorem publishBytecode_eq_ok (h : publishBytecode e id w = .ok () w') :
    e.fails (.publishBytecode id) = false ∧ id ∉ w.bytecode ∧
      w' = { w with bytecode := insert id w.bytecode } := by
  obtain ⟨hf, h⟩ := prim_eq_ok.1 h
  obtain ⟨hno, ⟨⟩⟩ := Option.ite_none_left_eq_some.1 h
  exact ⟨hf, hno, rfl⟩

/-- Loading a program that overwrites a set pins a new map in its directory, or fails and removes
the directory. -/
theorem loadOne_overwrites (hu : Unpins e) (h : Overwrites e i spec w) :
    (∃ item w', loadOne e i spec w = .ok item w' ∧ ∃ name,
      w.map? (.map (e.loadID i) name) = none ∧ (w'.map? (.map (e.loadID i) name)).isSome) ∨
    ∃ er w', loadOne e i spec w = .err er w' ∧ .mapDir (e.loadID i) ∉ w'.dirs := by
  obtain ⟨h0, w₁, hcol, hpin, hmk, hwhy⟩ := h
  have hself : pinProgramMaps e i (e.loadID i) spec = pinOwnMaps e i (e.loadID i) spec := if_pos h0
  cases ho : loadOne e i spec w with
  | ok item w' =>
    -- it was loaded, so the reason is a map of its own
    obtain ⟨-, w₂, hk, hp⟩ := loadOne_eq_ok.1 ho
    obtain ⟨hinfo, w1', hcol', -, hm⟩ := kernelLoad_eq_ok hk
    rw [hcol] at hcol'
    cases hcol'
    rw [hself] at hm
    obtain ⟨-, hmaps⟩ := pinOwnMaps_eq_ok hm
    obtain ⟨hpub, hnot, rfl⟩ := publishBytecode_eq_ok hp
    have hb : e.loadID i ∉ w₁.bytecode := by
      rw [(pinMaps_eq_ok hmaps).2.1] at hnot
      exact hnot
    have hne : spec.maps ≠ [] := by simpa [hinfo, hpub, hb] using hwhy
    obtain ⟨m, ms, hms⟩ := exists_cons_of_ne_nil hne
    rw [hms] at hmaps
    obtain ⟨hnone, hsome⟩ := pinMaps_ok_new hmaps
    exact .inl ⟨item, _, rfl, m.name,
      ((sameSet_loadCollection.ok hcol).pins m.name).symm.trans hnone, hsome⟩
  | err er w' =>
    refine .inr ⟨er, w', rfl, ?_⟩
    rcases loadOne_eq_err ho with ⟨er', hk⟩ | ⟨w₂, w3, hk, -, rfl⟩
    · rcases kernelLoad_eq_err hk with ⟨er'', hcol'⟩ | ⟨w1', hcol', hcases⟩
      · rw [hcol] at hcol'
        cases hcol'
      rw [hcol] at hcol'
      cases hcol'
      rw [hself] at hcases
      rcases hcases with ⟨hno, -⟩ | ⟨-, ⟨er'', hm⟩ | ⟨w₂, -, -, rfl⟩⟩
      · exact absurd hpin hno
      · rcases pinOwnMaps_eq_err hm with ⟨hf, -⟩ | ⟨-, hmaps⟩
        · rw [hmk] at hf
          cases hf
        · exact (pinMaps_err_dir hu hmaps).2
      · unfold abandonLoad
        rw [if_pos h0]
        exact discardLoaded_dir hu _ _ _
    · have hset : spec.mapSetID (e.loadID i) = e.loadID i := if_pos h0
      rw [undoLoad_of_unpins hu, hset]
      exact fun hmem => (mem_dropMaps.1 hmem).2 rfl

/-- Otherwise a directory that is there stays as it was. -/
theorem loadOne_sameSet_of_self (h0 : spec.mapOwnerID = 0) (hd : .mapDir (e.loadID i) ∈ w.dirs)
    (hu : Unpins e) (h : ¬ Overwrites e i spec w) :
    SameSet (e.loadID i) w (loadOne e i spec w).state := by
  have hself : pinProgramMaps e i (e.loadID i) spec = pinOwnMaps e i (e.loadID i) spec := if_pos h0
  -- whoever gets past the directory would overwrite the set
  have hover : ∀ {w₁}, loadCollection e i spec w = .ok () w₁ → Pinnable e (e.loadID i) w₁ →
      e.fails (.mkdirAll (.mapDir (e.loadID i))) = false → spec.maps = [] ∧
        e.fails (.progInfo (e.loadID i)) = false ∧ e.fails (.publishBytecode (e.loadID i)) = false ∧
        e.loadID i ∉ w₁.bytecode := by
    intro w₁ hcol hpin hmk
    by_contra hno
    refine h ⟨h0, w₁, hcol, hpin, hmk, ?_⟩
    by_contra hnone
    push Not at hnone
    exact hno ⟨hnone.1, by simpa using hnone.2.1, by simpa using hnone.2.2.1, hnone.2.2.2⟩
  -- a program the kernel adapter loaded declares no maps
  have hloaded : ∀ {out w₂}, kernelLoad e i spec w = .ok out w₂ → SameSet (e.loadID i) w w₂ ∧
      e.fails (.publishBytecode (e.loadID i)) = false ∧ e.loadID i ∉ w₂.bytecode := by
    intro out w₂ hk
    obtain ⟨-, w₁, hcol, hpin, hm⟩ := kernelLoad_eq_ok hk
    rw [hself] at hm
    obtain ⟨hmk, hmaps⟩ := pinOwnMaps_eq_ok hm
    obtain ⟨hnil, -, hpub, hb⟩ := hover hcol hpin hmk
    rw [hnil] at hmaps
    cases hmaps
    have hset := (sameSet_loadCollection (s := e.loadID i)).ok hcol
    have hmade : SameSet (e.loadID i) w₁
        ((w₁.pinLoaded (e.loadID i)).mkdirAll (.mapDir (e.loadID i))) :=
      ⟨fun _ => rfl, iff_of_true (mem_mkdirAll_mapDir _ _) (hset.dir.2 hd)⟩
    exact ⟨trans_of (SameSet _) hset hmade, hpub, hb⟩
  cases ho : loadOne e i spec w with
  | ok item w' =>
    obtain ⟨-, w₂, hk, hp⟩ := loadOne_eq_ok.1 ho
    exact trans_of (SameSet _) (hloaded hk).1 (sameSet_publishBytecode.ok hp)
  | err er w' =>
    rcases loadOne_eq_err ho with ⟨er', hk⟩ | ⟨w₂, w3, hk, hp, rfl⟩
    · rcases kernelLoad_eq_err hk with ⟨er'', hcol⟩ | ⟨w₁, hcol, hcases⟩
      · exact sameSet_loadCollection.err hcol
      have hset := (sameSet_loadCollection (s := e.loadID i)).ok hcol
      rw [hself] at hcases
      rcases hcases with ⟨-, rfl⟩ | ⟨hpin, ⟨er'', hm⟩ | ⟨w₂, hinfo, hm, rfl⟩⟩
      · exact trans_of (SameSet _) hset (sameSet_fail w₁ _)
      · rcases pinOwnMaps_eq_err hm with ⟨-, rfl⟩ | ⟨hmk, hmaps⟩
        · have hpinned : SameSet (e.loadID i) w₁ ((w₁.pinLoaded (e.loadID i)).fail
              (.mkdirAll (.mapDir (e.loadID i)))) := sameSet_of_eq rfl rfl
          exact trans_of (SameSet _) hset (trans_of (SameSet _) hpinned (sameSet_unpinLoaded_nil _))
        · exact absurd (hover hcol hpin hmk).1 (pinMaps_err_dir hu hmaps).1
      · rw [(hover hcol hpin (pinOwnMaps_eq_ok hm).1).2.1] at hinfo
        cases hinfo
    · obtain ⟨-, hpub, hb⟩ := hloaded hk
      rcases publishBytecode_isErr.1 ⟨_, _, hp⟩ with hf | hmem
      · rw [hpub] at hf
        cases hf
      · exact absurd hmem hb

/-- A program of the batch leaves the directory of `s` alone, unless it has its id and overwrites
it, or is to join it and cannot be published. -/
theorem loadOne_sameSet (hd : .mapDir s ∈ w.dirs) (hu : Unpins e)
    (hover : e.loadID i = s → ¬ Overwrites e i spec w) (hjoin : ¬ UnpublishedInto e i spec s w) :
    SameSet s w (loadOne e i spec w).state := by
  by_cases hid : spec.mapOwnerID = 0 ∧ e.loadID i = s
  · obtain ⟨h0, rfl⟩ := hid
    exact loadOne_sameSet_of_self h0 hd hu (hover rfl)
  · have hne : spec.mapOwnerID = 0 → e.loadID i ≠ s := fun h0 hs => hid ⟨h0, hs⟩
    exact sameSet_loadOne_state hne hjoin

theorem unpublishedInto_dir (hu : Unpins e) (h : UnpublishedInto e i spec s w) :
    ∃ er w', loadOne e i spec w = .err er w' ∧ .mapDir s ∉ w'.dirs := by
  obtain ⟨er, w₁, -, hl⟩ := loadOne_of_unpublishedInto hu h
  exact ⟨er, _, hl, fun hmem => (mem_dropMaps.1 hmem).2 rfl⟩

/-! ## The rollback -/

/-- "A recorded set whose directory is there is as it was." -/
def SetStays (s : ProgramID) (w w' : World) : Prop :=
  .mapDir s ∈ w.dirs → w.store.mapSetExists s = true →
    SameSet s w w' ∧ w'.store.mapSets = w.store.mapSets

theorem SetStays.next (h : SetStays s w w') (hd : .mapDir s ∈ w.dirs)
    (hs : w.store.mapSetExists s = true) :
    .mapDir s ∈ w'.dirs ∧ w'.store.mapSetExists s = true := by
  obtain ⟨hset, hrows⟩ := h hd hs
  refine ⟨hset.dir.2 hd, ?_⟩
  unfold Store.mapSetExists at hs ⊢
  rwa [hrows]

instance : Std.Refl (SetStays s) := ⟨fun w _ _ => ⟨refl_of (SameSet s) w, rfl⟩⟩

instance : IsTrans World (SetStays s) := ⟨fun _ _ _ h h' hd hs => by
  obtain ⟨hd', hs'⟩ := h.next hd hs
  obtain ⟨h₁, hrows⟩ := h hd hs
  obtain ⟨h₂, hrows'⟩ := h' hd' hs'
  exact ⟨trans_of (SameSet s) h₁ h₂, hrows'.trans hrows⟩⟩

theorem Touched.setStays {sc : Scope} (h : Touched sc w w') (hs : ¬ sc.dirs s) : SetStays s w w' :=
  fun _ _ => ⟨h.sameSet hs, h.shrinks.mapSets⟩

/-- The maps of a program with the id of a recorded set are not removed. -/
theorem setStays_removeUnrecordedMaps (hid : e.loadID i = s) :
    Keeps (SetStays s) (removeUnrecordedMaps e (loadedRecord e i spec)) := by
  subst hid
  intro w hd hs
  have hlog : OnLog w (removeUnrecordedMaps e (loadedRecord e i spec) w).state := by
    unfold removeUnrecordedMaps
    rw [loadedRecord_mapSetID, loadedRecord_programID]
    split
    · rename_i hself
      rw [hself, bind_apply, shouldRemove_eq, hs]
      cases e.fails (.mapSetExists (e.loadID i)) <;> rfl
    · rfl
  rw [hlog]
  exact ⟨sameSet_of_eq rfl rfl, rfl⟩

theorem setStays_unloadLoaded : Keeps (SetStays s) (unload e (loadedRecord e i spec) [] false) := by
  by_cases hid : e.loadID i = s
  · exact keeps_unloadLoaded (fun _ _ ht => ht.setStays fun h => h)
      (setStays_removeUnrecordedMaps hid)
  · exact (touched_unloadLoaded (D := (· = e.loadID i)) (S := fun _ => True) (U := True)
      (fun _ => rfl) trivial).mono fun _ _ ht => ht.setStays fun h => hid h.symm

/-! ## A batch that fails -/

/-- The batch reaches a program that changes the directory of `s`: one that has its id and
overwrites it, or one that is to join it and cannot be published. -/
def Disturbs (e : Env) (specs : List LoadSpec) (s : ProgramID) (w : World) : Prop :=
  ∃ pre spec post items w₁, specs = pre ++ spec :: post ∧ LoadedAll e 0 pre w items w₁ ∧
    ((e.loadID pre.length = s ∧ Overwrites e pre.length spec w₁) ∨
      UnpublishedInto e pre.length spec s w₁)

theorem setStays_loadOne (hu : Unpins e) (hover : e.loadID i = s → ¬ Overwrites e i spec w)
    (hjoin : ¬ UnpublishedInto e i spec s w) : SetStays s w (loadOne e i spec w).state :=
    fun hd _ =>
  ⟨loadOne_sameSet hd hu hover hjoin, by rw [sameStore_loadOne w]⟩

theorem setStays_loadBody (hu : Unpins e) (hno : ¬ Disturbs e specs s w)
    (h : loadBody e specs w = .err err w') : SetStays s w w' := by
  refine loadBody_err_lift (fun pre spec post items w₁ heq hpre => ?_)
    (fun _ _ _ => setStays_unloadLoaded) (fun _ _ _ _ => ⟨sameSet_of_eq rfl rfl, rfl⟩) h
  exact setStays_loadOne hu (fun hid hov => hno ⟨_, _, _, _, _, heq, hpre, .inl ⟨hid, hov⟩⟩)
    fun hun =>
    hno ⟨_, _, _, _, _, heq, hpre, .inr hun⟩

/-- Only the program `s` itself makes the map directory of `s`. -/
theorem Touched.noDir {sc : Scope} (h : Touched sc w w') (hne : sc.id ≠ s)
    (hw : .mapDir s ∉ w.dirs) : .mapDir s ∉ w'.dirs := by
  induction h with
  | refl => exact hw
  | tail _ hab ih =>
    cases hab with
    | mkdir h => simpa [World.mkdirAll, Dir.chain, hne.symm] using ih
    | mkdirShared h => simpa [World.mkdirAll, Dir.chain] using ih
    | rmdir h => exact fun hmem => ih (dirsGo_rmdir _ _ hmem)
    | removeAll h => exact fun hmem => ih (Finset.mem_of_mem_erase hmem)
    | _ => exact ih

/-- "A directory that is gone stays gone, and one that is there stays as it was or goes." -/
def StaysOrGoes (s : ProgramID) (w w' : World) : Prop :=
  (.mapDir s ∉ w.dirs → .mapDir s ∉ w'.dirs) ∧ (SetStays s w w' ∨ .mapDir s ∉ w'.dirs)

instance : Std.Refl (StaysOrGoes s) := ⟨fun w => ⟨fun h => h, Or.inl (refl_of (SetStays s) w)⟩⟩

instance : IsTrans World (StaysOrGoes s) := ⟨fun _ _ _ h h' => by
  refine ⟨fun hw => h'.1 (h.1 hw), ?_⟩
  rcases h.2 with h₁ | h₁
  · exact h'.2.imp_left fun h₂ => trans_of (SetStays s) h₁ h₂
  · exact Or.inr (h'.1 h₁)⟩

theorem staysOrGoes_loadOne (hu : Unpins e) (hne : e.loadID i ≠ s) :
    StaysOrGoes s w (loadOne e i spec w).state := by
  constructor
  · exact (touches_loadOne_wide w).noDir hne
  · by_cases hun : UnpublishedInto e i spec s w
    · obtain ⟨er, w', h, hgone⟩ := unpublishedInto_dir hu hun
      rw [h]
      exact .inr hgone
    · exact .inl (setStays_loadOne hu (fun hid => absurd hid hne) hun)

/-- A program that stops the batch and removes the directory. -/
theorem not_sameSet_of_stop {post : List LoadSpec} (hd : .mapDir s ∈ w.dirs)
    (hpre : LoadedAll e 0 pre w items w₁) (hs : loadOne e pre.length spec w₁ = .err err w₂)
    (hgone : .mapDir s ∉ w₂.dirs) (h : loadBody e (pre ++ spec :: post) w = .err err w') :
    ¬ SameSet s w w' := by
  rw [loadBody_of_stop hpre hs] at h
  obtain ⟨-, rfl⟩ := Outcome.err.inj h
  intro hset
  have hgo : Keeps DirsGo (cleanupLoaded e (items.map (·.1))) :=
    keeps_cleanupLoaded fun r hr => by
      obtain ⟨j, spec, -, rfl⟩ := hpre.record_of_mem hr
      exact dirsGo_unloadLoaded
  exact hgone (hgo w₂ (hset.dir.2 hd))

/-- After a program that is loaded, programs with other ids leave the directory as it is or remove
it. -/
theorem staysOrGoes_after {post : List LoadSpec} (hu : Unpins e)
    (hpre : LoadedAll e 0 pre w items w₁) (hne : ∀ j < post.length, e.loadID (pre.length + j) ≠ s)
    (h : loadBody e (pre ++ post) w = .err err w') : StaysOrGoes s w₁ w' := by
  refine loadBody_err_lift_after hpre (fun mid spec rest new wa heq _ => ?_) (fun j spec _ wa => ?_)
    (fun _ _ => ⟨fun hw => hw, .inl fun _ _ => ⟨sameSet_of_eq rfl rfl, rfl⟩⟩) h
  · exact staysOrGoes_loadOne hu (hne mid.length (by simp [heq]))
  · exact ⟨fun hw hmem => hw (dirsGo_unloadLoaded wa hmem), .inl (setStays_unloadLoaded wa)⟩

/-- A failed batch that disturbs a recorded set changes it. -/
theorem not_sameSet_of_disturbs (hu : Unpins e) (hd : .mapDir s ∈ w.dirs)
    (hs : w.store.mapSetExists s = true)
    (hinj : ∀ j < specs.length, ∀ k < specs.length, e.loadID j = s → e.loadID k = s → j = k)
    (hdis : Disturbs e specs s w) (h : loadBody e specs w = .err err w') : ¬ SameSet s w w' := by
  obtain ⟨pre, spec, post, items, w₁, rfl, hpre, hwhy⟩ := hdis
  -- the program stops the batch without the directory, or is loaded with a new map
  have hcases : (∃ item w₂, loadOne e pre.length spec w₁ = .ok item w₂ ∧ e.loadID pre.length = s ∧
      ∃ name, w₁.map? (.map s name) = none ∧ (w₂.map? (.map s name)).isSome) ∨
      ∃ er w₂, loadOne e pre.length spec w₁ = .err er w₂ ∧ .mapDir s ∉ w₂.dirs := by
    rcases hwhy with ⟨rfl, hov⟩ | hun
    · exact (loadOne_overwrites hu hov).imp_left fun ⟨item, w₂, hone, hnew⟩ =>
        ⟨item, w₂, hone, rfl, hnew⟩
    · exact .inr (unpublishedInto_dir hu hun)
  rcases hcases with ⟨item, w₂, hone, hid, name, hnone, hsome⟩ | ⟨er, w₂, hstop, hgone⟩
  · have hlen : pre.length < (pre ++ spec :: post).length := by simp
    have hloaded : LoadedAll e 0 (pre ++ [spec]) w (items ++ [item]) w₂ :=
      hpre.append (.cons (by rwa [Nat.zero_add]) (.nil _ _))
    have hbefore : SameSet s w w₁ := (hpre.sameProgram fun j hj hjs => by
      have := hinj (0 + j) (by simp; omega) pre.length hlen hjs hid
      omega).set
    have hafter : StaysOrGoes s w₂ w' := by
      refine staysOrGoes_after hu hloaded (fun j hj hjs => ?_) (by simpa using h)
      have := hinj _ (by simp at hj ⊢; omega) pre.length hlen hjs hid
      simp at this
      omega
    intro hset
    have hstore : w₂.store = w.store := hloaded.store_eq
    rcases hafter.2 with hstay | hgone
    · by_cases hd2 : .mapDir s ∈ w₂.dirs
      · obtain ⟨hsame, -⟩ := hstay hd2 (by rwa [hstore])
        rw [← hsame.pins name, hset.pins name, ← hbefore.pins name, hnone] at hsome
        cases hsome
      · exact hafter.1 hd2 (hset.dir.2 hd)
    · exact hgone (hset.dir.2 hd)
  · have herr : er = err := by
      rw [loadBody_of_stop hpre hstop] at h
      exact (Outcome.err.inj h).1
    subst herr
    exact not_sameSet_of_stop hd hpre hstop hgone h

/-! ## The commit -/

/-- Committing a program with another id leaves a set recorded and gives it no owner. -/
theorem commitItem_keeps {record : ProgramRecord} {names : List String} (hne : record.programID ≠ s)
    (h : commitItem e record names w = .ok () w') (hset : w.store.mapSetExists s = true)
    (hno : ∀ p ∈ w.store.programs, p.programID ≠ s) :
    w'.store.mapSetExists s = true ∧ ∀ p ∈ w'.store.programs, p.programID ≠ s := by
  obtain ⟨st, hsave, rfl⟩ := commitItem_saved h
  obtain ⟨-, hsets, hrows⟩ := save_rows hsave
  constructor
  · obtain ⟨ms, hms, hid⟩ := any_eq_true.1 hset
    exact any_eq_true.2 ⟨ms, hsets.1 hms, hid⟩
  · intro p hp
    rcases hrows p hp with hp | rfl
    · exact hno p hp
    · exact hne

/-- A program that is to own its maps is not committed over a set that is recorded under its id. -/
theorem commit_refused (hset : w.store.mapSetExists s = true)
    (hno : ∀ p ∈ w.store.programs, p.programID ≠ s) (hit : ∃ it ∈ items, it.1.programID = s)
    (hown : ∀ it ∈ items, it.1.programID = s → it.1.mapOwnerID = none) :
    ¬ ∃ w', runInTransaction e (commitBatch e items) w = .ok () w' := by
  rintro ⟨w', h⟩
  have hitems := commitBatch_items h
  clear h
  induction items generalizing w with
  | nil =>
    obtain ⟨it, hmem, -⟩ := hit
    cases hmem
  | cons it items ih =>
    obtain ⟨u, w₂, hone, hrest⟩ := bind_eq_ok.1 hitems
    by_cases hid : it.1.programID = s
    · subst hid
      obtain ⟨-, hself, -⟩ := commitItem_eq_ok hno hone
      rw [hself (hown it (mem_cons_self ..) rfl)] at hset
      cases hset
    · obtain ⟨hset2, hno2⟩ := commitItem_keeps hid hone hset hno
      refine ih hset2 hno2 ?_ (fun it' hit' => hown it' (mem_cons_of_mem _ hit')) hrest
      obtain ⟨it', hmem, hs⟩ := hit
      rcases mem_cons.1 hmem with rfl | hmem
      · exact absurd hs hid
      · exact ⟨it', hmem, hs⟩

/-! ## The users of a set -/

theorem sameRows_loadBody (h : loadBody e specs w = .err err w') : SameRows w w' :=
  loadBody_err_lift (fun _ _ _ _ w₁ _ _ => (touches_loadOne_wide w₁).sameRows)
    (fun _ _ _ => touched_unloadLoaded_wide.mono fun _ _ ht => ht.sameRows)
    (fun _ _ => ⟨rfl, rfl⟩) h

/-- The reap of a load deletes no user of the set `s`. -/
def SparesUsers (e : Env) (s : ProgramID) (st : Store) : Prop :=
  ∀ p ∈ st.programs, p.mapSetID = s → p.programID ∈ reaped e st →
    e.fails (.deleteProgram p.programID) = true

/-- The users of the set are the same. -/
def SameUsers (s : ProgramID) (w w' : World) : Prop :=
  ∀ p : ProgramRow, p.mapSetID = s → (p ∈ w'.store.programs ↔ p ∈ w.store.programs)

theorem reap_sameUsers_iff :
    SameUsers s w (reapDeadProgramRecords e w).state ↔ SparesUsers e s w.store := by
  have hmem : ∀ p, p ∈ (reapDeadProgramRecords e w).state.store.programs ↔ p ∈ w.store.programs ∧
      (p.programID ∉ reaped e w.store ∨ e.fails (.deleteProgram p.programID) = true) := fun p => by
    rw [reap_programs, mem_filter, Bool.or_eq_true, decide_eq_true_eq]
  unfold SameUsers SparesUsers
  simp only [hmem, and_iff_left_iff_imp]
  constructor
  · exact fun h p hp hs hr => (h p hs hp).resolve_left fun hnot => hnot hr
  · exact fun h p hs hp => or_iff_not_imp_left.2 fun hr => h p hp hs (not_not.1 hr)

/-! ## The load -/

/-- The row of the set, its directory and pins, and its users are as they were. -/
structure SetKept (s : ProgramID) (w w' : World) : Prop where
  row : ∀ r : MapSetRow, r.id = s → (r ∈ w'.store.mapSets ↔ r ∈ w.store.mapSets)
  pins : SameSet s w w'
  users : SameUsers s w w'

/-- What makes a load that reuses the id of the set `s` for its `i`-th program fail closed: its
owners are not valid, so it does nothing; or it reaps no user of the set, reaches no program that
changes the directory, and the program given the id names no owner or a forward call does not
work. -/
def FailsClosed (e : Env) (specs : List LoadSpec) (i : Nat) (s : ProgramID) (w : World) : Prop :=
  ¬ OwnersValid e specs w.store ∨
    (SparesUsers e s w.store ∧ ¬ Disturbs e specs s (reapDeadProgramRecords e w).state ∧
      ((∀ spec, specs[i]? = some spec → spec.mapOwnerID = 0) ∨
        Halts e specs (reapDeadProgramRecords e w).state))

theorem Commits.loadBody_isOk (h : Commits e specs w) : (loadBody e specs w).isOk = true := by
  obtain ⟨items, w₁, w₂, hall, htx⟩ := h
  have hloop := @LoadedAll.loadAll_eq _ _ _ _ _ _ [] hall
  rw [nil_append] at hloop
  unfold loadBody
  rw [bind_of_ok hloop, bind_of_ok (onErr_eq_ok.2 htx)]
  rfl

/-- A program that names no owner is never committed under the id of a recorded set. -/
theorem not_commits (hset : w.store.mapSetExists s = true)
    (hno : ∀ p ∈ w.store.programs, p.programID ≠ s)
    (hinj : ∀ j < specs.length, ∀ k < specs.length, e.loadID j = e.loadID k → j = k)
    (hi : specs[i]? = some spec) (hid : e.loadID i = s) (h0 : spec.mapOwnerID = 0) :
    ¬ Commits e specs w := by
  rintro ⟨items, w₁, w₂, hall, htx⟩
  have hstore := hall.store_eq
  obtain ⟨hlt, hget⟩ := List.getElem?_eq_some_iff.1 hi
  have hitems := hall.items_eq
  simp only [Nat.zero_add] at hitems
  refine commit_refused (s := s) (by rwa [hstore]) (by rwa [hstore]) ?_ ?_ ⟨w₂, htx⟩
  · rw [hitems]
    exact ⟨_, mem_mapIdx.2 ⟨i, hlt, rfl⟩, hid⟩
  · intro it hit hs
    rw [hitems] at hit
    obtain ⟨j, hj, rfl⟩ := mem_mapIdx.1 hit
    obtain rfl := hinj j hj i hlt (hs.trans hid.symm)
    rw [hget]
    exact if_pos h0

/-- **A reused id fails closed**: the set `s` is recorded, its owner is gone, its directory is in
place, and the kernel gives the id `s` to the `i`-th program of the batch and to no other. The calls
that unpin work. -/
theorem reuse_fails_closed_iff (hset : w.store.mapSetExists s = true)
    (hno : ∀ p ∈ w.store.programs, p.programID ≠ s) (hdir : .mapDir s ∈ w.dirs)
    (hi : i < specs.length) (hid : e.loadID i = s)
    (hinj : ∀ j < specs.length, ∀ k < specs.length, e.loadID j = e.loadID k → j = k)
    (hu : Unpins e) :
    ((load e specs w).isOk = false ∧ SetKept s w (load e specs w).state) ↔
      FailsClosed e specs i s w := by
  have hne : specs ≠ [] := ne_nil_of_length_pos (Nat.zero_lt_of_lt hi)
  -- the reap leaves the set alone: it is not a program
  have hreap : SameSet s w (reapDeadProgramRecords e w).state := by
    refine (sameProgram_reap fun hmem => ?_).set
    obtain ⟨p, hp, hps⟩ := recorded_of_reaped hmem
    exact hno p hp hps
  have hshrinks := shrinks_reap e w
  have hset1 : (reapDeadProgramRecords e w).state.store.mapSetExists s = true := by
    unfold Store.mapSetExists at hset ⊢
    rwa [hshrinks.mapSets]
  have hno1 : ∀ p ∈ (reapDeadProgramRecords e w).state.store.programs, p.programID ≠ s :=
    fun p hp => hno p (hshrinks.programs hp)
  cases ho : load e specs w with
  | ok records w' =>
    refine iff_of_false (fun h => Bool.noConfusion h.1) ?_
    obtain ⟨-, hv, hbody⟩ := load_eq_ok ho
    obtain ⟨items, w₁, hall, -, htx⟩ := loadBody_eq_ok hbody
    have hcommits : Commits e specs (reapDeadProgramRecords e w).state := ⟨items, w₁, w', hall, htx⟩
    rintro (hinvalid | ⟨-, -, hown⟩)
    · exact hinvalid hv
    · rcases hown with hself | hhalts
      · have hspec : specs[i]? = some specs[i] := getElem?_eq_getElem hi
        exact not_commits hset1 hno1 hinj hspec hid (hself _ hspec) hcommits
      · exact commits_iff.1 hcommits hhalts
  | err er w' =>
    refine (and_iff_right rfl).trans ?_
    rcases load_eq_err ho with ⟨hnone, hw'⟩ | ⟨-, hv, hbody⟩
    · refine iff_of_true ?_ (.inl (hnone.resolve_left hne))
      rcases hw' with rfl | ⟨c, rfl⟩
      · exact ⟨fun _ _ => Iff.rfl, refl_of (SameSet s) _, fun _ _ => Iff.rfl⟩
      · exact ⟨fun _ _ => Iff.rfl, sameSet_fail w c, fun _ _ => Iff.rfl⟩
    · have hrows := sameRows_loadBody hbody
      have hhalts : Halts e specs (reapDeadProgramRecords e w).state := by
        by_contra hno
        have hok := (commits_iff.2 hno).loadBody_isOk
        rw [hbody] at hok
        cases hok
      constructor
      · intro hkept
        refine .inr ⟨reap_sameUsers_iff.1 fun p hp => ?_, fun hdis => ?_, .inr hhalts⟩
        · rw [← hkept.users p hp, Outcome.state_err, hrows.1]
        · refine not_sameSet_of_disturbs hu (hreap.dir.2 hdir) hset1 (fun j hj k hk hjs hks =>
            hinj j hj k hk (hjs.trans hks.symm)) hdis hbody ⟨fun name => ?_, ?_⟩
          · exact (hkept.pins.pins name).trans (hreap.pins name).symm
          · exact hkept.pins.dir.trans hreap.dir.symm
      · rintro (hinvalid | ⟨husers, hdis, -⟩)
        · exact absurd hv hinvalid
        · obtain ⟨hsame, -⟩ := setStays_loadBody hu hdis hbody (hreap.dir.2 hdir) hset1
          refine ⟨fun r _ => ?_, trans_of (SameSet s) hreap hsame, fun p hp => ?_⟩
          · rw [Outcome.state_err, hrows.2, hshrinks.mapSets]
          · rw [Outcome.state_err, hrows.1]
            exact reap_sameUsers_iff.2 husers p hp

namespace Sample

/-- A spec whose object declares no maps. -/
def noMaps (name : String) (owner : ProgramID) : LoadSpec where
  programName := name
  programType := .xdp
  mapOwnerID := owner
  maps := []
  nodup := by decide

/-- Program 200 uses the maps of program 100, which is unloaded. -/
@[irreducible] def survivor : World :=
  (unloadProgram (env 3 []) 100 (load (env 2 []) [oneMap "b" 100] owner).state).state

theorem loadID_inj {now : Nat} {faults : List Call} (n : Nat) :
    ∀ j < n, ∀ k < n, (env now faults).loadID j = (env now faults).loadID k → j = k :=
  fun _ _ _ _ h => Nat.add_left_cancel h

end Sample

open Sample

/-- A program without maps is given the id 100 of the set that survives. -/
theorem reuse_fails_closed_iff_sample :
    ((load (env 1 []) [noMaps "c" 0] survivor).isOk = false ∧
      SetKept 100 survivor (load (env 1 []) [noMaps "c" 0] survivor).state) ↔
      FailsClosed (env 1 []) [noMaps "c" 0] 0 100 survivor :=
  reuse_fails_closed_iff (by decide +kernel) (by decide +kernel) (by decide +kernel) (by decide) rfl
    (loadID_inj 1) (unpins_env (by decide))

/-- A program with a map of the same name is given the id 100: its load fails and takes the pins of
the set with it. -/
theorem reuse_unpins_survivor :
    (survivor.store.mapSetExists 100 = true ∧
      (∀ p ∈ survivor.store.programs, p.programID ≠ 100) ∧
      ∃ p ∈ survivor.store.programs, p.mapSetID = 100) ∧
    ¬ SetKept 100 survivor (load (env 1 []) [oneMap "c" 0] survivor).state := by
  refine ⟨by decide +kernel, fun h => ?_⟩
  have hpin : survivor.map? (.map 100 "m") = some 100 := by decide +kernel
  have hgone : (load (env 1 []) [oneMap "c" 0] survivor).state.map?
      (.map 100 "m") = none := by decide +kernel
  have := h.pins.pins "m"
  rw [hpin, hgone] at this
  cases this

end Bpfman
