import Bpfman.SharedMaps

/-!
# Runs with shared maps

* `loadBody_err_shared`, `shared_loadBody_ok` — what a batch leaves under the shared directory;
* `sharedPins_of_run` — after a run of loads and unloads the pins are the referenced names, under
  the condition `SharesSettled` on its batches;
* `failed_load_leaves_shared_pin` — without it a batch that fails leaves the pins it made.
-/

namespace Bpfman

open Fallible Proc List World

variable {e : Env} {w w' : World} {i : Nat} {spec : LoadSpec} {specs : List LoadSpec}

variable {name : String} {names : List String}
  {id : ProgramID} {items : List (ProgramRecord × List String)} {C S : String → Prop}

/-! ## Loading -/

/-- The names the programs of the batch that are to own their maps share. -/
def OwnShares (specs : List LoadSpec) (name : String) : Prop :=
  ∃ sp ∈ specs, sp.mapOwnerID = 0 ∧ name ∈ sp.pinByNameMaps

theorem pins_loadOne (hspec : spec ∈ specs) : Keeps (Pins (OwnShares specs)) (loadOne e i spec) :=
  (touches_loadOne (D := fun _ => True) (S := OwnShares specs) (U := False) trivial
    fun h0 _ hname => ⟨spec, hspec, h0, hname⟩).mono fun _ _ ht => ht.pins fun hf => hf

theorem LoadedAll.pins {pre : List LoadSpec} (h : LoadedAll e i pre w items w')
    (hpre : ∀ sp ∈ pre, sp ∈ specs) : Pins (OwnShares specs) w w' :=
  h.lift fun _ _ hj _ _ _ hl => (pins_loadOne (hpre _ (mem_of_getElem? hj))).ok hl

theorem keepsShared_cleanupLoaded (hr : Releases e) {pre : List LoadSpec}
    (h : LoadedAll e i pre w items w') :
    Keeps (KeepsShared C) (cleanupLoaded e (items.map (·.1))) := by
  refine keeps_cleanupLoaded fun r hmem => ?_
  obtain ⟨j, spec, -, rfl⟩ := h.record_of_mem hmem
  exact keepsShared_unload hr rfl [] false

/-- A batch that failed pinned some of the maps its programs share, and released its references. -/
theorem loadBody_err_shared {err : Err} (hr : Releases e) (h : loadBody e specs w = .err err w') :
    ∃ w1, Pins (OwnShares specs) w w1 ∧ ∀ C, KeepsShared C w1 w' := by
  rcases loadBody_eq_err h with
    ⟨pre, sp, post, items, w1, w2, rfl, hpre, hsp, rfl⟩ | ⟨items, w1, w2, hall, htx, rfl⟩
  · refine ⟨w2, ?_, fun C => keepsShared_cleanupLoaded hr hpre w2⟩
    exact trans_of (Pins _) (hpre.pins fun sp hsp => mem_append_left _ hsp)
      ((pins_loadOne (mem_append_right _ (mem_cons_self ..))).err hsp)
  · refine ⟨w2, ?_, fun C => keepsShared_cleanupLoaded hr hall w2⟩
    have hw2 := runInTransaction_eq_err (onStore_commitBatch items) htx
    have hlog : Pins (OwnShares specs) w1 w2 := by
      rw [hw2]
      exact pins_of_eq rfl rfl fun _ => rfl
    exact trans_of (Pins _) (hall.pins fun sp hsp => hsp) hlog

/-- A shared map is pinned once it is shared. -/
theorem sharedPin_shareMap (h : shareMap e i name w = .ok () w') : w'.SharedPin name := by
  unfold shareMap at h
  rw [read_bind] at h
  split at h
  · rename_i hpin
    obtain ⟨-, h⟩ := prim_eq_ok.1 (mapErr_eq_ok.1 h)
    rw [if_pos hpin] at h
    cases h
    exact hpin
  · obtain ⟨u, w1, -, h⟩ := bind_eq_ok.1 h
    obtain ⟨-, rfl⟩ := pinMap_eq_ok (mapErr_eq_ok.1 h)
    unfold SharedPin
    rw [map?_addMap, if_pos rfl]
    rfl

theorem sharedPin_shareMaps (h : forEach (shareMap e i) names w = .ok () w') :
    ∀ name ∈ names, w'.SharedPin name := by
  induction names generalizing w with
  | nil => exact fun _ hn => by cases hn
  | cons n names ih =>
    obtain ⟨u, w1, h1, h2⟩ := bind_eq_ok.1 h
    have hrest : Touched ⟨0, fun _ => False, fun _ => True, False⟩ w1 w' :=
      (Keeps.forEach fun _ _ => touched_shareMap trivial).ok h2
    intro name hname
    rcases mem_cons.1 hname with rfl | hname
    · exact (hrest.pins fun hf => hf).keeps _ (sharedPin_shareMap h1)
    · exact ih h2 name hname

theorem sharedPin_loadOne {item : ProgramRecord × List String} (h0 : spec.mapOwnerID = 0)
    (h : loadOne e i spec w = .ok item w') (hname : name ∈ spec.pinByNameMaps) :
    w'.SharedPin name := by
  obtain ⟨-, w1, hk, hp⟩ := loadOne_eq_ok.1 h
  obtain ⟨-, w0, hcol, -, hm⟩ := kernelLoad_eq_ok hk
  obtain ⟨u, wa, ha, hcol⟩ := bind_eq_ok.1 hcol
  obtain ⟨u, wb, hb, hcol⟩ := bind_eq_ok.1 hcol
  obtain ⟨-, hc⟩ := prim_eq_ok.1 (mapErr_eq_ok.1 hcol)
  cases hc
  unfold mapReplacements at hb
  rw [if_neg (not_not.2 h0)] at hb
  have hshared : w0.SharedPin name := by
    split at hb
    · rename_i hnil
      rw [isEmpty_iff.1 hnil] at hname
      cases hname
    · obtain ⟨u, wc, -, hb⟩ := bind_eq_ok.1 hb
      exact sharedPin_shareMaps hb name hname
  have hpinned : Touched ⟨e.loadID i, fun _ => True, fun _ => False, False⟩ w0 w' :=
    (Relation.ReflTransGen.single (.pinProg w0 _)).trans
      (((touched_pinProgramMaps fun _ => trivial).ok hm).trans (touched_publishBytecode.ok hp))
  exact (hpinned.pins fun hf => hf).keeps name hshared

theorem LoadedAll.sharedPin (h : LoadedAll e i specs w items w')
    (hname : OwnShares specs name) : w'.SharedPin name := by
  obtain ⟨sp, hsp, h0, hname⟩ := hname
  obtain ⟨pre, post, rfl⟩ := append_of_mem hsp
  obtain ⟨its, its', w1, w2, -, -, hone, hpost⟩ := h.split
  exact (hpost.pins fun sp hsp => hsp).keeps name (sharedPin_loadOne h0 hone hname)

/-! ## The commit -/

theorem mem_insertSharedMapPins {rows : List SharedMapPinRow}
    {r : SharedMapPinRow} : r ∈ names.foldl (Store.insertSharedMapPin id) rows ↔
      r ∈ rows ∨ ∃ name ∈ names, r = ⟨name, id⟩ := by
  induction names generalizing rows with
  | nil => simp
  | cons n names ih =>
    rw [foldl_cons, ih]
    unfold Store.insertSharedMapPin
    split
    · rename_i hmem
      simp only [mem_cons, exists_eq_or_imp]
      constructor
      · exact fun h => h.imp_right .inr
      · rintro (h | rfl | h)
        · exact .inl h
        · exact .inl hmem
        · exact .inr h
    · simp [or_assoc]

/-- What committing programs adds: their references, and map sets with map directories. -/
structure AddsRefs (names : String → Prop) (w w' : World) : Prop where
  references : ∀ name, w'.store.References name ↔ w.store.References name ∨ names name
  pins : w'.mapPins = w.mapPins
  dirs : w.store.MapDirs → w'.store.MapDirs

theorem addsRefs_commitItem {record : ProgramRecord} {m : ProgramID}
    (hm : record.mapsDir = .mapDir m) (h : commitItem e record names w = .ok () w') :
    AddsRefs (· ∈ names) w w' := by
  obtain ⟨s', hs, rfl⟩ := commitItem_saved h
  obtain ⟨hrefs, ⟨-, hsets⟩, -⟩ := save_rows hs
  refine ⟨fun name => ?_, rfl, fun hd r hr => ?_⟩
  · simp only [Store.References, mem_insertSharedMapPins, hrefs]
    constructor
    · rintro ⟨r, hr | ⟨n, hn, rfl⟩, hname⟩
      · exact .inl ⟨r, hr, hname⟩
      · exact .inr (hname ▸ hn)
    · rintro (⟨r, hr, hname⟩ | hn)
      · exact ⟨r, .inl hr, hname⟩
      · exact ⟨_, .inr ⟨name, hn, rfl⟩, rfl⟩
  · rcases mem_append.1 (hsets hr) with hr | hr
    · exact hd r hr
    · obtain rfl := mem_singleton.1 hr
      exact ⟨m, hm⟩

theorem addsRefs_commitItems (hm : ∀ it ∈ items, ∃ m, it.1.mapsDir = .mapDir m)
    (h : forEach (fun it => commitItem e it.1 it.2) items w = .ok () w') :
    AddsRefs (fun name => ∃ it ∈ items, name ∈ it.2) w w' := by
  induction items generalizing w with
  | nil =>
    cases h
    exact ⟨by simp, rfl, fun hd => hd⟩
  | cons it items ih =>
    obtain ⟨u, w1, h1, h2⟩ := bind_eq_ok.1 h
    obtain ⟨m, hit⟩ := hm it (mem_cons_self ..)
    have hone := addsRefs_commitItem hit h1
    have hrest := ih (fun it' hit' => hm it' (mem_cons_of_mem _ hit')) h2
    refine ⟨fun name => ?_, hrest.pins.trans hone.pins, fun hd => hrest.dirs (hone.dirs hd)⟩
    rw [hrest.references, hone.references]
    simp [or_assoc]

/-- The names the programs of the batch share, also those that join the maps of another program. -/
def AllShares (specs : List LoadSpec) (name : String) : Prop :=
  ∃ sp ∈ specs, name ∈ sp.pinByNameMaps

theorem addsRefs_commit (hall : LoadedAll e 0 specs w items w')
    {w1 : World} (h : runInTransaction e (commitBatch e items) w' = .ok () w1) :
    AddsRefs (AllShares specs) w' w1 := by
  have hitems := hall.items_eq
  have hadds := addsRefs_commitItems (fun it hit => by
    rw [hitems] at hit
    obtain ⟨j, hj, rfl⟩ := mem_mapIdx.1 hit
    exact ⟨_, rfl⟩) (commitBatch_items h)
  have hnames : ∀ name, (∃ it ∈ items, name ∈ it.2) ↔ AllShares specs name := by
    intro name
    rw [hitems]
    constructor
    · rintro ⟨it, hit, hname⟩
      obtain ⟨j, hj, rfl⟩ := mem_mapIdx.1 hit
      exact ⟨specs[j], getElem_mem hj, hname⟩
    · rintro ⟨sp, hsp, hname⟩
      obtain ⟨j, hj, rfl⟩ := getElem_of_mem hsp
      exact ⟨_, mem_mapIdx.2 ⟨j, hj, rfl⟩, hname⟩
  exact ⟨fun name => by rw [hadds.references, hnames], hadds.pins, hadds.dirs⟩

/-- The names shared by programs that join the maps of another program are referenced already, or
shared by a program of the batch that is to own its maps. -/
def JoinersShare (specs : List LoadSpec) (s : Store) : Prop :=
  ∀ name, AllShares specs name → s.References name ∨ OwnShares specs name

/-- A batch that was committed pinned the maps its programs share and recorded the references. -/
theorem shared_loadBody_ok {records : List ProgramRecord} (hw : Shared (fun _ => False) w)
    (h : loadBody e specs w = .ok records w') :
    (Shared (fun _ => False) w' ↔ JoinersShare specs w.store) ∧
      (w.store.MapDirs → w'.store.MapDirs) := by
  obtain ⟨items, w1, hall, -, htx⟩ := loadBody_eq_ok h
  have hpins : Pins (OwnShares specs) w w1 := hall.pins fun sp hsp => hsp
  have hcommit := addsRefs_commit hall htx
  have hpin : ∀ name, w'.SharedPin name ↔ w.store.References name ∨ OwnShares specs name := by
    intro name
    have hlast : w'.SharedPin name ↔ w1.SharedPin name := by
      unfold SharedPin map?
      rw [hcommit.pins]
    rw [hlast]
    constructor
    · exact fun hn => (hpins.new name hn).imp_left fun hn => (hw.referenced name hn).resolve_right
        fun hf => hf
    · rintro (hn | hn)
      · exact hpins.keeps name (hw.pinned name hn)
      · exact hall.sharedPin hn
  have href : ∀ name, w'.store.References name ↔ w.store.References name ∨
      AllShares specs name := by
    intro name
    rw [hcommit.references, hall.store_eq]
  refine ⟨⟨fun hw' name hname => (hpin name).1 (hw'.pinned name ((href name).2 (.inr hname))),
    fun hj => ⟨fun name hn => ?_, fun name hn => .inl ?_⟩⟩, fun hd => hcommit.dirs ?_⟩
  · rcases (href name).1 hn with hn | hn
    · exact (hpin name).2 (.inl hn)
    · exact (hpin name).2 (hj name hn)
  · refine (href name).2 (((hpin name).1 hn).imp_right fun ⟨sp, hsp, _, hname⟩ => ⟨sp, hsp, hname⟩)
  · rwa [hall.store_eq]

/-! ## Runs -/

/-- The pins under the shared directory are the names some program references. -/
def SharedPinsMatch (w : World) : Prop := ∀ name, w.SharedPin name ↔ w.store.References name

theorem shared_iff : Shared (fun _ => False) w ↔ SharedPinsMatch w :=
  ⟨fun h name => ⟨fun hn => (h.referenced name hn).resolve_right (fun hf => hf), h.pinned name⟩,
    fun h => ⟨fun name => (h name).2, fun name hn => .inl ((h name).1 hn)⟩⟩

/-- What a batch that starts in `w` is to meet: what joining programs share is referenced or shared
by the batch. What the others share is referenced, or no primitive fails and none of the programs is
recorded. -/
structure SharesSettled (e : Env) (specs : List LoadSpec) (w : World) : Prop where
  joiners : JoinersShare specs w.store
  owners : (∀ name, OwnShares specs name → w.store.References name) ∨
    (Quiet (loadBody e specs) w ∧
      ∀ i < specs.length, ∀ p ∈ w.store.programs, p.programID ≠ e.loadID i)

/-- One load or one unload, whether it returns an error or not. -/
inductive SharedStep : World → World → Prop
  | load {w : World} (e : Env) (specs : List LoadSpec) (hr : Releases e)
      (h : OwnersValid e specs w.store → SharesSettled e specs (reapDeadProgramRecords e w).state) :
      SharedStep w (load e specs w).state
  | unload {w : World} (e : Env) (id : ProgramID) (hr : Releases e) :
      SharedStep w (unloadProgram e id w).state

theorem KeepsShared.mapDirs (h : KeepsShared C w w') (hd : w.store.MapDirs) : w'.store.MapDirs :=
  fun r hr => hd r (h.mapSets hr)

theorem shared_loadBody (hr : Releases e) (hs : SharesSettled e specs w)
    (hw : Shared (fun _ => False) w) (hd : w.store.MapDirs) :
    Shared (fun _ => False) (loadBody e specs w).state ∧
      (loadBody e specs w).state.store.MapDirs := by
  cases h : loadBody e specs w with
  | ok records w' =>
    obtain ⟨hiff, hdirs⟩ := shared_loadBody_ok hw h
    exact ⟨hiff.2 hs.joiners, hdirs hd⟩
  | err err w' =>
    obtain ⟨w1, hpins, hkeeps⟩ := loadBody_err_shared hr h
    rcases hs.owners with hrefs | ⟨hq, hid⟩
    · have hsame := hpins.narrow fun name hn => hw.pinned name (hrefs name hn)
      have hall := trans_of (KeepsShared _) hsame.keepsShared (hkeeps fun _ => False)
      exact ⟨hall.shared hw, hall.mapDirs hd⟩
    · obtain ⟨items, w2, -, -, -, hok⟩ :=
        loadBody_quiet (fun _ _ hall => hall.unrecorded_ids hid) hq
      cases h.symm.trans hok

theorem shared_step (h : SharedStep w w') (hw : Shared (fun _ => False) w) (hd : w.store.MapDirs) :
    Shared (fun _ => False) w' ∧ w'.store.MapDirs := by
  cases h with
  | load e specs hr h =>
    rcases load_cases e specs w with ⟨-, er, w1, herr, hw1⟩ | ⟨-, hv, hbody⟩
    · have hkeep : KeepsShared (fun _ => False) w w1 := by
        rcases hw1 with rfl | ⟨c, rfl⟩
        · exact refl_of (KeepsShared _) w1
        · exact keepsShared_fail w c
      rw [herr]
      exact ⟨hkeep.shared hw, hkeep.mapDirs hd⟩
    · have hreap : KeepsShared (fun _ => False) w (reapDeadProgramRecords e w).state :=
        keeps_reap keepsShared_fail fun id _ => keepsShared_executeReap hr id
      rw [hbody]
      exact shared_loadBody hr (h hv) (hreap.shared hw) (hreap.mapDirs hd)
  | unload e id hr =>
    have hkeep := keepsShared_unloadProgram (C := fun _ => False) hr hd id
    exact ⟨hkeep.shared hw, hkeep.mapDirs hd⟩

/-- **The pins under the shared directory are the referenced names after every run** of loads and
unloads, also of those that fail, when the calls that release a shared map work and every batch
meets `SharesSettled`. -/
theorem sharedPins_of_run {w₀ : World} (h₀ : SharedPinsMatch w₀) (hd : w₀.store.MapDirs)
    (h : Relation.ReflTransGen SharedStep w₀ w) : SharedPinsMatch w := by
  have hall : Shared (fun _ => False) w ∧ w.store.MapDirs := by
    induction h with
    | refl => exact ⟨shared_iff.2 h₀, hd⟩
    | tail _ hstep ih => exact shared_step hstep ih.1 ih.2
  exact shared_iff.1 hall.1

namespace Sample

/-- A spec whose object has one map, `m`, that is pinned by name. -/
def byName (name : String) (owner : ProgramID) : LoadSpec where
  programName := name
  programType := .xdp
  mapOwnerID := owner
  maps := [⟨"m", true⟩]
  nodup := by decide

/-- The calls `Releases` is about. -/
def releaseCall : Call → Bool
  | .deleteSharedMapPins _ | .removeMap _ => true
  | _ => false

theorem releases_env {now : Nat} {faults : List Call} (h : ∀ c ∈ faults, releaseCall c = false) :
    Releases (env now faults) where
  deleteSharedMapPins _ := decide_eq_false fun hmem => Bool.noConfusion (h _ hmem)
  removeMap _ := decide_eq_false fun hmem => Bool.noConfusion (h _ hmem)

/-- Program 100 is loaded and shares its map. -/
@[irreducible] def sharer : World := (load (env 1 []) [byName "a" 0] {}).state

theorem joiners_byName (name : String) (s : Store) : JoinersShare [byName name 0] s := by
  rintro n ⟨sp, hsp, hn⟩
  obtain rfl := mem_singleton.1 hsp
  exact .inr ⟨_, mem_singleton_self _, rfl, hn⟩

theorem sharedPins_empty : SharedPinsMatch {} := fun name =>
  ⟨fun h => by simp [SharedPin, map?] at h, fun ⟨_, h, _⟩ => by cases h⟩

theorem step_sharer : SharedStep {} sharer := by
  unfold sharer
  exact .load _ _ (releases_env (by decide)) fun _ => ⟨joiners_byName _ _, .inr
    ⟨by decide +kernel, fun i _ p hp => by cases hp⟩⟩

end Sample

open Sample

/-- Program 100 shares its map. The load of a second program that shares it fails in its commit. -/
theorem sharedPins_of_run_sample :
    (load (env 2 [.commit]) [byName "b" 0] sharer).isOk = false ∧
      SharedPinsMatch (load (env 2 [.commit]) [byName "b" 0] sharer).state := by
  refine ⟨by decide +kernel, sharedPins_of_run sharedPins_empty (fun r hr => by cases hr)
    (.tail (.single step_sharer) (.load _ _ (releases_env (by decide)) fun _ => ?_))⟩
  refine ⟨joiners_byName _ _, .inl ?_⟩
  rintro name ⟨sp, hsp, -, hname⟩
  obtain rfl := mem_singleton.1 hsp
  obtain rfl := mem_singleton.1 hname
  exact ⟨⟨"m", 100⟩, by decide +kernel, rfl⟩

/-- **The pin of a shared map outlives a batch that was not committed**: the first program that
shares a map is loaded, its commit fails, and the pin stays without a reference. -/
theorem failed_load_leaves_shared_pin :
    Releases (env 1 [.commit]) ∧ SharedPinsMatch {} ∧
      ¬ SharedPinsMatch (load (env 1 [.commit]) [byName "a" 0] {}).state := by
  refine ⟨releases_env (by decide), sharedPins_empty, fun h => ?_⟩
  have hpin : ((load (env 1 [.commit]) [byName "a" 0] {}).state.map?
      (.shared "m")).isSome = true := by decide +kernel
  have hrows : (load (env 1 [.commit]) [byName "a" 0] {}).state.store.sharedMapPins =
      [] := by decide +kernel
  obtain ⟨r, hr, -⟩ := (h "m").1 hpin
  rw [hrows] at hr
  cases hr

end Bpfman
