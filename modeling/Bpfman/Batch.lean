import Bpfman.Rollback

/-!
# Batches that fail

* `FreshIDs` — the ids the kernel gives a batch are not in use, before the reap and after it;
* `Beside` — what is not of the batch is as it was;
* `rollback_program` — what a failed batch leaves of each of its programs: nothing, or a map
  directory when the store could not say whether the map set is recorded;
* `load_all_or_nothing`, `batch_cleared_iff` — the contract of a failed load, when the rollback can
  query the store and when it cannot.
-/

namespace Bpfman

open Fallible Proc List World

variable {e : Env} {w w' w₁ w2 : World} {i j n : Nat} {spec : LoadSpec} {specs pre : List LoadSpec}
  {id x : ProgramID} {sc : Scope} {ids : ProgramID → Prop}
  {items : List (ProgramRecord × List String)} {err : Err}

/-! ## Fresh ids and the reap -/

/-- The store has no row of program `id`. -/
structure Unused (id : ProgramID) (s : Store) : Prop where
  program : ∀ p ∈ s.programs, p.programID ≠ id
  set : s.mapSetExists id = false
  refs : NoRefs id s

/-- The ids the kernel gives the `n` programs of a batch are different and not in use. -/
structure FreshIDs (e : Env) (n : Nat) (w : World) : Prop where
  inj : ∀ i < n, ∀ j < n, e.loadID i = e.loadID j → i = j
  clear : ∀ i < n, Clear (e.loadID i) w
  unused : ∀ i < n, Unused (e.loadID i) w.store

/-- Reaping leaves the pins, the maps and the bytecode of the other programs alone. -/
theorem sameProgram_reap (h : x ∉ reaped e w.store) :
    SameProgram x w (reapDeadProgramRecords e w).state := by
  refine keeps_reap sameProgram_fail fun id hid => ?_
  have hne : id ≠ x := fun hx => h (hx ▸ hid)
  exact keeps_executeReap (fun _ _ ht => ht.sameProgram hne fun hx => hne hx.symm) fun _ w s _ =>
    sameProgram_of_store s w.failed w

theorem Unused.shrinks (h : Unused id w.store) (hs : Shrinks w w') : Unused id w'.store where
  program p hp := h.program p (hs.programs hp)
  set := by
    unfold Store.mapSetExists
    rw [hs.mapSets]
    exact h.set
  refs r hr := h.refs r (hs.refs hr)

theorem FreshIDs.reap (h : FreshIDs e n w) : FreshIDs e n (reapDeadProgramRecords e w).state where
  inj := h.inj
  clear i hi := by
    refine (sameProgram_reap fun hmem => ?_).clear (h.clear i hi)
    obtain ⟨p, hp, hid⟩ := recorded_of_reaped hmem
    exact (h.unused i hi).program p hp hid
  unused i hi := (h.unused i hi).shrinks (shrinks_reap e w)

/-! ## What is not of the batch -/

/-- Everything but the pins, the map directories and the bytecode of the programs in `ids`, and the
directories above them, is as it was. -/
structure Beside (ids : ProgramID → Prop) (w w' : World) : Prop where
  store : w'.store = w.store
  progs : ∀ p, (∀ id, ids id → p ≠ .prog id) → w'.prog? p = w.prog? p
  links : w'.linkPins = w.linkPins
  maps : ∀ q : MapPinPath, (∀ id, ids id → q.parent ≠ .mapDir id) → w'.map? q = w.map? q
  dirs : ∀ d, d ≠ .bpffs → d ≠ .maps → (∀ id, ids id → d ≠ .mapDir id) → (d ∈ w'.dirs ↔ d ∈ w.dirs)
  filters : w'.filters = w.filters
  bytecode : ∀ y, ¬ ids y → (y ∈ w'.bytecode ↔ y ∈ w.bytecode)

theorem Beside.refl (w : World) : Beside ids w w :=
  ⟨rfl, fun _ _ => rfl, rfl, fun _ _ => rfl, fun _ _ _ _ => Iff.rfl, rfl, fun _ _ => Iff.rfl⟩

theorem Beside.trans {w3 : World} (h : Beside ids w₁ w2) (h' : Beside ids w2 w3) :
    Beside ids w₁ w3 where
  store := h'.store.trans h.store
  progs p hp := (h'.progs p hp).trans (h.progs p hp)
  links := h'.links.trans h.links
  maps q hq := (h'.maps q hq).trans (h.maps q hq)
  dirs d hb hm hd := (h'.dirs d hb hm hd).trans (h.dirs d hb hm hd)
  filters := h'.filters.trans h.filters
  bytecode y hy := (h'.bytecode y hy).trans (h.bytecode y hy)

instance : Std.Refl (Beside ids) := ⟨Beside.refl⟩

instance : IsTrans World (Beside ids) := ⟨fun _ _ _ h h' => h.trans h'⟩

/-- An operation on a program of the batch that has no shared maps. -/
theorem Touched.beside (h : Touched sc w w') (hid : ids sc.id) (hD : ∀ m, sc.dirs m → ids m)
    (hS : ∀ name, ¬ sc.shares name) (hU : ¬ sc.releases) : Beside ids w w' := by
  refine h.lift fun a b hab => ?_
  have hbase := @Beside.refl ids a
  cases hab with
  | log c => exact { hbase with }
  | pinProg y =>
    refine { hbase with progs := fun p hp => ?_ }
    rw [prog?_addProg, if_neg (hp _ hid)]
  | unpinProg =>
    refine { hbase with progs := fun p hp => ?_ }
    rw [prog?_eraseProg, if_neg (hp _ hid)]
  | pinMap h name y =>
    refine { hbase with maps := fun q hq => ?_ }
    rw [map?_addMap, if_neg]
    rintro rfl
    exact hq _ hid rfl
  | unpinMap h name =>
    refine { hbase with maps := fun q hq => ?_ }
    rw [map?_eraseMap, if_neg]
    rintro rfl
    exact hq _ (hD _ h) rfl
  | mkdir h =>
    refine { hbase with dirs := fun d hb hm hd => ?_ }
    simp [World.mkdirAll, Dir.chain, hb, hm, hd _ hid]
  | rmdir h =>
    obtain ⟨D, heq⟩ := a.rmdir_eq (.mapDir _)
    have hmem := fun d (hd : ∀ id, ids id → d ≠ .mapDir id) =>
      mem_rmdir_of_ne (w := a) (hd _ (hD _ h))
    rw [heq] at hmem ⊢
    exact { hbase with dirs := fun d _ _ hd => hmem d hd }
  | removeAll h =>
    have hlink : ∀ (p : LinkPath) (m : ProgramID), p.parent ≠ .mapDir m := fun p m => by
      cases p <;> simp [LinkPath.parent]
    refine { hbase with
      progs := fun p _ => ?_, links := ?_, maps := fun q hq => ?_, dirs := fun d _ _ hd => ?_ }
    · rw [prog?_removeAll, if_neg (by cases p <;> simp [ProgPinPath.parent])]
    · exact filter_eq_self.2 fun x _ => by simpa using hlink x.1 _
    · rw [map?_removeAll, if_neg (hq _ (hD _ h))]
    · simp [World.removeAll, hd _ (hD _ h)]
  | mkdirShared h => exact absurd h.choose_spec (hS _)
  | share name y hs h => exact absurd hs (hS _)
  | publish =>
    refine { hbase with bytecode := fun y hy => ?_ }
    have hne : y ≠ sc.id := fun heq => hy (heq ▸ hid)
    simp [hne]
  | unpublish =>
    refine { hbase with bytecode := fun y hy => ?_ }
    have hne : y ≠ sc.id := fun heq => hy (heq ▸ hid)
    simp [hne]
  | dropRefs h => exact absurd h hU
  | unshare h name => exact absurd h hU

/-! ## The programs of a batch, one by one -/

theorem sameProgram_loadOne {item : ProgramRecord × List String} (hne : e.loadID i ≠ x)
    (h : loadOne e i spec w = .ok item w') : SameProgram x w w' :=
  (touched_loadOne (D := (· = e.loadID i)) (S := fun _ => True) (U := False) (fun _ => rfl)
    (fun _ _ _ => trivial) h).sameProgram hne fun hx => hne hx.symm

theorem sameProgram_loadOne_err (hne : e.loadID i ≠ x) (hset : spec.mapSetID (e.loadID i) ≠ x)
    (h : loadOne e i spec w = .err err w') : SameProgram x w w' :=
  ((touches_loadOne (D := (· = spec.mapSetID (e.loadID i))) (S := fun _ => True) (U := False) rfl
    fun _ _ _ => trivial).err h).sameProgram hne fun hx => hset hx.symm

theorem sameProgram_unloadLoaded (hne : e.loadID i ≠ x) :
    Keeps (SameProgram x) (unload e (loadedRecord e i spec) [] false) :=
  (touched_unloadLoaded (D := (· = e.loadID i)) (S := fun _ => True) (U := True) (fun _ => rfl)
    trivial).mono fun _ _ ht => ht.sameProgram hne fun hx => hne hx.symm

theorem sameStore_loadOne : Keeps SameStore (loadOne e i spec) :=
  (touches_loadOne (D := fun _ => True) (S := fun _ => True) (U := False) trivial
    fun _ _ _ => trivial).mono fun _ _ ht => ht.store False.elim

theorem LoadedAll.store_eq (h : LoadedAll e i specs w items w') : w'.store = w.store :=
  h.lift (R := SameStore) fun _ _ _ _ _ _ hl => sameStore_loadOne.ok hl

theorem LoadedAll.sameProgram (h : LoadedAll e i specs w items w')
    (hx : ∀ j < specs.length, e.loadID (i + j) ≠ x) : SameProgram x w w' :=
  h.lift fun j _ hj _ _ _ hl => sameProgram_loadOne (hx j (List.getElem?_eq_some_iff.1 hj).1) hl

theorem cleanupLoaded_append (e : Env) (a b : List ProgramRecord) (w : World) :
    (cleanupLoaded e (a ++ b) w).state = (cleanupLoaded e a (cleanupLoaded e b w).state).state := by
  have hfold : ∀ (loaded : List ProgramRecord) (w : World), cleanupLoaded e loaded w =
      .ok () (loaded.reverse.foldl (fun w r => (unload e r [] false w).state) w) := fun loaded w =>
    forEach_of_ok (g := fun r w => (unload e r [] false w).state) fun _ _ _ => rfl
  simp only [hfold, Outcome.state_ok, reverse_append, foldl_append]

theorem LoadedAll.sameProgram_cleanup (h : LoadedAll e i specs w items w')
    (hx : ∀ j < specs.length, e.loadID (i + j) ≠ x) :
    Keeps (SameProgram x) (cleanupLoaded e (items.map (·.1))) := by
  refine keeps_cleanupLoaded fun r hr => ?_
  obtain ⟨j, sp, hj, rfl⟩ := h.record_of_mem hr
  exact sameProgram_unloadLoaded (hx j (List.getElem?_eq_some_iff.1 hj).1)

/-- "Without references of the programs in `ids`, the store is the same." -/
def StoreKept (ids : ProgramID → Prop) (w w' : World) : Prop :=
  (∀ id, ids id → NoRefs id w.store) → w'.store = w.store

instance : Std.Refl (StoreKept ids) := ⟨fun _ _ => rfl⟩

instance : IsTrans World (StoreKept ids) := ⟨fun _ _ _ h h' hr => by
  have hstore := h hr
  rw [h' (by rwa [hstore]), hstore]⟩

theorem LoadedAll.store_cleanup (h : LoadedAll e i specs w items w')
    (hids : ∀ j < specs.length, ids (e.loadID (i + j))) :
    Keeps (StoreKept ids) (cleanupLoaded e (items.map (·.1))) := by
  refine keeps_cleanupLoaded fun r hr => ?_
  obtain ⟨j, sp, hj, rfl⟩ := h.record_of_mem hr
  have hj' : ids (e.loadID (i + j)) := hids j (List.getElem?_eq_some_iff.1 hj).1
  exact touched_unloadLoaded_wide.mono fun _ _ ht hr => ht.store fun _ => hr _ hj'

/-! ## What a failed batch leaves of a program -/

theorem clear_takeDown {maps : Bool} (h : (maps = true ∧ .mapDir id ∈ w.dirs) ∨
    (.mapDir id ∉ w.dirs ∧ NoPins id w)) : Clear id (w.takeDown id maps) := by
  cases maps with
  | true =>
    have hdrop : w.takeDown id true =
        (eraseProg { w with bytecode := w.bytecode.erase id } (.prog id)).dropMaps id := by
      by_cases hd : .mapDir id ∈ w.dirs <;> simp [takeDown, dropMaps, eraseProg, hd]
    rw [hdrop]
    exact clear_dropMaps (h.imp_left fun hd => ⟨rfl, hd.2⟩) (by simp)
  | false =>
    obtain ⟨hdir, hpins⟩ := h.resolve_left (by simp)
    exact ⟨(prog?_eraseProg _ _).trans (if_pos rfl), hdir, hpins, by simp [takeDown]⟩

/-- What a rollback that cannot ask the store leaves of a program: its map directory. -/
structure MapsLeft (id : ProgramID) (w : World) : Prop where
  prog : w.prog? (.prog id) = none
  dir : .mapDir id ∈ w.dirs
  bytecode : id ∉ w.bytecode

theorem mapsLeft_takeDown (h : .mapDir id ∈ w.dirs) : MapsLeft id (w.takeDown id false) where
  prog := (prog?_eraseProg _ _).trans (if_pos rfl)
  dir := h
  bytecode := by simp [takeDown]

theorem SameProgram.mapsLeft (h : SameProgram x w w') (hm : MapsLeft x w) : MapsLeft x w' :=
  ⟨h.prog.trans hm.prog, h.set.dir.2 hm.dir, fun hb => hm.bytecode (h.bytecode.1 hb)⟩

/-- Whether the rollback leaves the map directory of a loaded program: the program owns its maps and
the store cannot be asked about its map set. -/
def Unasked (e : Env) (j : Nat) (spec : LoadSpec) : Prop :=
  spec.mapOwnerID = 0 ∧ e.fails (.mapSetExists (e.loadID j)) = true

theorem unloadLoaded_program (hu : Unpins e) (hun : Unused (e.loadID i) w.store)
    (hp : Placed (e.loadID i) spec w) :
    (Unasked e i spec ∧ MapsLeft (e.loadID i) (unload e (loadedRecord e i spec) [] false w).state) ∨
      (¬ Unasked e i spec ∧
        Clear (e.loadID i) (unload e (loadedRecord e i spec) [] false w).state) := by
  have hstate := @unloadLoaded_state _ _ _ spec hu hun.refs
  have hlog : SameProgram (e.loadID i)
      (w.takeDown (e.loadID i) (removesMaps e (e.loadID i) spec w.store))
      (unload e (loadedRecord e i spec) [] false w).state := by
    rw [hstate]
    exact sameProgram_of_store _ _ _
  rcases hp with ⟨h0, hdir⟩ | ⟨h0, hdir, hpins⟩
  · have hset : spec.mapSetID (e.loadID i) = e.loadID i := if_pos h0
    cases hf : e.fails (.mapSetExists (e.loadID i)) with
    | true =>
      refine .inl ⟨⟨h0, hf⟩, hlog.mapsLeft ?_⟩
      have hkeep : removesMaps e (e.loadID i) spec w.store = false := by simp [removesMaps, hf]
      rw [hkeep]
      exact mapsLeft_takeDown hdir
    | false =>
      refine .inr ⟨fun hun => by simp [hun.2] at hf, hlog.clear (clear_takeDown (.inl ⟨?_, hdir⟩))⟩
      simp [removesMaps, hset, hf, hun.set]
  · exact .inr ⟨fun hun => h0 hun.1, hlog.clear (clear_takeDown (.inr ⟨hdir, hpins⟩))⟩

theorem cleanup_program (hf : FreshIDs e n w) (hu : Unpins e) (hle : pre.length ≤ n)
    (hpre : LoadedAll e 0 pre w items w₁) (hj : pre[j]? = some spec)
    (hsame : SameProgram (e.loadID j) w₁ w2) (hstore : w2.store = w₁.store) :
    (Unasked e j spec ∧ MapsLeft (e.loadID j) (cleanupLoaded e (items.map (·.1)) w2).state) ∨
      (¬ Unasked e j spec ∧ Clear (e.loadID j) (cleanupLoaded e (items.map (·.1)) w2).state) := by
  obtain ⟨hlt, hget⟩ := List.getElem?_eq_some_iff.1 hj
  obtain ⟨a, b, rfl, rfl⟩ : ∃ a b, pre = a ++ spec :: b ∧ j = a.length :=
    ⟨pre.take j, pre.drop (j + 1), by rw [← hget, getElem_cons_drop, take_append_drop],
      by rw [length_take]; omega⟩
  have hn : a.length < n := by simp at hle; omega
  have hne : ∀ k < n, k ≠ a.length → e.loadID k ≠ e.loadID a.length := fun k hk hka heq =>
    hka (hf.inj k hk a.length hn heq)
  obtain ⟨its, its', wa, wb, rfl, ha, hone, hb⟩ := hpre.split
  rw [Nat.zero_add] at hone hb
  -- the program is placed when it is loaded and stays so until it is unloaded
  have hclear : Clear (e.loadID a.length) wa :=
    (ha.sameProgram fun k hk => hne (0 + k) (by omega) (by omega)).clear (hf.clear _ hn)
  have hafter : ∀ k < b.length, e.loadID (a.length + 1 + k) ≠ e.loadID a.length := fun k hk =>
    hne _ (by simp at hle; omega) (by omega)
  have hplaced : Placed (e.loadID a.length) spec (cleanupLoaded e (its'.map (·.1)) w2).state :=
    (hb.sameProgram_cleanup hafter w2).placed
      (hsame.placed ((hb.sameProgram hafter).placed (placed_loadOne hclear hone)))
  have hkept : (cleanupLoaded e (its'.map (·.1)) w2).state.store = w.store := by
    have h2 : w2.store = w.store := hstore.trans hpre.store_eq
    rw [@LoadedAll.store_cleanup _ _ _ _ _ (fun y => ∃ k < n, y = e.loadID k) _ hb
      (fun k hk => ⟨_, by simp at hle; omega, rfl⟩) w2 ?_, h2]
    rintro y ⟨k, hk, rfl⟩
    rw [h2]
    exact (hf.unused k hk).refs
  have hun : Unused (e.loadID a.length) (cleanupLoaded e (its'.map (·.1)) w2).state.store := by
    rw [hkept]
    exact hf.unused _ hn
  have hrest := ha.sameProgram_cleanup fun k hk => hne (0 + k) (by omega) (by omega)
  rw [Nat.zero_add, map_append, map_cons, cleanupLoaded_append,
    ← singleton_append, cleanupLoaded_append]
  exact (unloadLoaded_program hu hun hplaced).imp
    (fun ⟨h1, h2⟩ => ⟨h1, (hrest _).mapsLeft h2⟩) fun ⟨h1, h2⟩ => ⟨h1, (hrest _).clear h2⟩

/-- The batch gets as far as loading its `j`-th program. -/
def Reaches (e : Env) (specs : List LoadSpec) (j : Nat) (w : World) : Prop :=
  ∃ items w₁, LoadedAll e 0 (specs.take (j + 1)) w items w₁

theorem reaches_of_loaded {post : List LoadSpec} (h : LoadedAll e 0 pre w items w₁)
    (hj : j < pre.length) : Reaches e (pre ++ post) j w := by
  have htake : (pre ++ post).take (j + 1) = pre.take (j + 1) := take_append_of_le_length hj
  rw [← take_append_drop (j + 1) pre] at h
  obtain ⟨its, -, w2, -, hload, -⟩ := h.of_append
  exact ⟨its, w2, htake ▸ hload⟩

theorem not_reaches_of_stop {post : List LoadSpec} (h : LoadedAll e 0 pre w items w₁)
    (hs : loadOne e pre.length spec w₁ = .err err w2) (hj : pre.length ≤ j) :
    ¬ Reaches e (pre ++ spec :: post) j w := by
  rintro ⟨its, w3, hall⟩
  obtain ⟨k, rfl⟩ := Nat.exists_eq_add_of_le hj
  have htake : (pre ++ spec :: post).take (pre.length + k + 1) = pre ++ spec :: post.take k := by
    rw [Nat.add_assoc, take_length_add_append, take_succ_cons]
  rw [htake] at hall
  have hok := @LoadedAll.loadAll_eq _ _ _ _ _ _ [] hall
  rw [loadAll_of_stop h (by rwa [Nat.zero_add])] at hok
  cases hok

/-- **What a failed batch leaves of a program**: nothing, or its map directory if it was loaded,
owns its maps, and the store could not be asked about its map set. -/
theorem rollback_program (hf : FreshIDs e specs.length w) (hu : Unpins e)
    (hown : ∀ sp ∈ specs, sp.mapOwnerID ≠ 0 → ∀ i < specs.length, sp.mapOwnerID ≠ e.loadID i)
    (h : loadBody e specs w = .err err w') (hj : specs[j]? = some spec) :
    ((Unasked e j spec ∧ Reaches e specs j w) ∧ MapsLeft (e.loadID j) w') ∨
      (¬ (Unasked e j spec ∧ Reaches e specs j w) ∧ Clear (e.loadID j) w') := by
  have hlt : j < specs.length := (List.getElem?_eq_some_iff.1 hj).1
  rcases loadBody_eq_err h with
    ⟨pre, stop, post, items, w₁, w2, rfl, hpre, hsp, rfl⟩ | ⟨items, w₁, w2, hall, htx, rfl⟩
  · have hle : pre.length < (pre ++ stop :: post).length := by simp
    have hne : ∀ k < (pre ++ stop :: post).length, k ≠ j → e.loadID k ≠ e.loadID j :=
      fun k hk hkj heq => hkj (hf.inj k hk j hlt heq)
    have hstop : j ≠ pre.length → SameProgram (e.loadID j) w₁ w2 := fun hj => by
      refine sameProgram_loadOne_err (hne _ hle hj.symm) ?_ hsp
      unfold LoadSpec.mapSetID
      split
      · exact hne _ hle hj.symm
      · exact hown stop (by simp) ‹_› j hlt
    by_cases hjpre : j < pre.length
    · -- loaded, then unloaded again
      have hreach : Reaches e (pre ++ stop :: post) j w := reaches_of_loaded hpre hjpre
      rw [getElem?_append_left hjpre] at hj
      exact (cleanup_program hf hu hle.le hpre hj (hstop (by omega))
        (sameStore_loadOne.err hsp)).imp
        (fun ⟨h1, h2⟩ => ⟨⟨h1, hreach⟩, h2⟩) fun ⟨h1, h2⟩ => ⟨fun hc => h1 hc.1, h2⟩
    · have hother : ∀ k < pre.length, e.loadID (0 + k) ≠ e.loadID j := fun k hk =>
        hne _ (by omega) (by omega)
      have hbefore : Clear (e.loadID j) w₁ := (hpre.sameProgram hother).clear (hf.clear j hlt)
      refine .inr ⟨fun hc => not_reaches_of_stop hpre hsp (by omega) hc.2,
        (hpre.sameProgram_cleanup hother w2).clear ?_⟩
      by_cases hjeq : j = pre.length
      · -- the program that stopped the batch
        subst hjeq
        exact clear_loadOne_err hu hbefore hsp
      · -- never started
        exact (hstop hjeq).clear hbefore
  · have hw2 := runInTransaction_eq_err (onStore_commitBatch items) htx
    have hsame : SameProgram (e.loadID j) w₁ w2 := by
      rw [hw2]
      exact sameProgram_of_store _ _ _
    have hstore : w2.store = w₁.store := by rw [hw2]
    have hreach : Reaches e specs j w := by
      have := @reaches_of_loaded _ _ _ _ _ _ [] hall hlt
      rwa [append_nil] at this
    exact (cleanup_program hf hu le_rfl hall hj hsame hstore).imp
      (fun ⟨h1, h2⟩ => ⟨⟨h1, hreach⟩, h2⟩) fun ⟨h1, h2⟩ => ⟨fun hc => h1 hc.1, h2⟩

/-! ## Cancelled loads -/

/-- Nothing of the `n` programs of a batch is on the machine: no pin, no map directory, no
bytecode. -/
def BatchCleared (e : Env) (n : Nat) (w : World) : Prop :=
  ∀ i < n, w.prog? (.prog (e.loadID i)) = none ∧ .mapDir (e.loadID i) ∉ w.dirs ∧
    e.loadID i ∉ w.bytecode

/-- The load reaches a program that is to own its maps, whose map set the store cannot be asked
about. -/
def LoadsUnasked (e : Env) (specs : List LoadSpec) (w : World) : Prop :=
  OwnersValid e specs w.store ∧ ∃ j spec, specs[j]? = some spec ∧ Unasked e j spec ∧
    Reaches e specs j (reapDeadProgramRecords e w).state

/-- An owner of another program's maps is recorded, so it has none of the fresh ids. -/
theorem FreshIDs.owner_ne (hf : FreshIDs e n w) (hv : OwnersValid e specs w.store) :
    ∀ sp ∈ specs, sp.mapOwnerID ≠ 0 → ∀ i < n, sp.mapOwnerID ≠ e.loadID i := by
  intro sp hsp h0 i hi heq
  have hset := (hf.unused i hi).set
  rw [← heq, (hv sp hsp h0).2] at hset
  cases hset

/-- **What a failed load leaves of its batch**, whatever calls of the store fail. The ids the kernel
gives the batch are fresh, and the calls that unpin work. -/
theorem batch_cleared_iff (hf : FreshIDs e specs.length w) (hu : Unpins e)
    (h : load e specs w = .err err w') :
    BatchCleared e specs.length w' ↔ ¬ LoadsUnasked e specs w := by
  rcases load_eq_err h with ⟨hno, hw'⟩ | ⟨-, hv, hbody⟩
  · -- stopped before anything changed
    refine iff_of_true (fun i hi => ?_) ?_
    · have hsame : SameProgram (e.loadID i) w w' := by
        rcases hw' with rfl | ⟨c, rfl⟩
        · exact refl_of (SameProgram _) _
        · exact sameProgram_fail w c
      have hc := hsame.clear (hf.clear i hi)
      exact ⟨hc.prog, hc.dir, hc.bytecode⟩
    · rintro ⟨hv, j, spec, hj, -⟩
      rcases hno with rfl | hno
      · simp at hj
      · exact hno hv
  · have hprog : ∀ {j spec}, specs[j]? = some spec → _ := fun {j spec} hj =>
      rollback_program hf.reap hu (hf.owner_ne hv) hbody hj
    constructor
    · rintro hclear ⟨-, j, spec, hj, hun, hreach⟩
      have hlt : j < specs.length := (List.getElem?_eq_some_iff.1 hj).1
      rcases hprog hj with ⟨-, hleft⟩ | ⟨hnot, -⟩
      · exact (hclear j hlt).2.1 hleft.dir
      · exact hnot ⟨hun, hreach⟩
    · intro hnone i hi
      have hj : specs[i]? = some specs[i] := getElem?_eq_getElem hi
      rcases hprog hj with ⟨⟨hun, hreach⟩, -⟩ | ⟨-, hc⟩
      · exact absurd ⟨hv, i, _, hj, hun, hreach⟩ hnone
      · exact ⟨hc.prog, hc.dir, hc.bytecode⟩

namespace Sample

theorem freshIDs_empty (now n : Nat) (faults : List Call) : FreshIDs (env now faults) n {} where
  inj i _ j _ h := Nat.add_left_cancel h
  clear i _ := ⟨rfl, by simp, fun _ => rfl, by simp⟩
  unused i _ := ⟨by simp, rfl, by simp [NoRefs]⟩

/-- The calls of the store that fail once the context of a load is cancelled before its commit, for
the program 100. -/
def cancelled : List Call := [.getProgram 100, .commit, .deleteSharedMapPins 100, .mapSetExists 100]

end Sample

open Sample

/-- A program that owns its map is loaded and the commit fails. -/
theorem batch_cleared_iff_sample :
    BatchCleared (env 1 [.commit]) 1
        (load (env 1 [.commit]) [oneMap "a" 0] {}).state ↔
      ¬ LoadsUnasked (env 1 [.commit]) [oneMap "a" 0] {} := by
  obtain ⟨err, h⟩ := Outcome.eq_err_of_isOk
    (o := load (env 1 [.commit]) [oneMap "a" 0] {}) (by decide +kernel)
  exact batch_cleared_iff (freshIDs_empty 1 1 _) (unpins_env (by decide)) h

/-- The load of a program that owns its map is cancelled before the commit: it fails, and the map
directory of the program stays. -/
theorem cancelled_load_leaves_maps :
    let o := load (env 1 cancelled) [oneMap "a" 0] {}
    o.isOk = false ∧ Unpins (env 1 cancelled) ∧
      ¬ BatchCleared (env 1 cancelled) 1 o.state := by
  refine ⟨by decide +kernel, unpins_env (by decide), fun h => ?_⟩
  exact (h 0 (by decide)).2.1 (by decide +kernel)

/-! ## Batches without owners and shared maps -/

theorem beside_withLog (w : World) (l : List Call) : Beside ids w (w.withLog l) :=
  { Beside.refl w with }

theorem beside_dropMaps (hid : ids id) (w : World) : Beside ids w (w.dropMaps id) := by
  have hmaps := fun (h : .mapDir id ∈ w.dirs) (q : MapPinPath) => map?_dropMaps h q
  unfold dropMaps at hmaps ⊢
  split
  · rename_i hd
    refine { Beside.refl w with maps := fun q hq => ?_, dirs := fun d _ _ hdir => ?_ }
    · have := hmaps hd q
      rwa [if_pos hd, if_neg (hq id hid)] at this
    · simp [hdir id hid]
  · exact .refl w

theorem beside_takeDown (hid : ids id) (w : World) (maps : Bool) :
    Beside ids w (w.takeDown id maps) := by
  have hprog : Beside ids w (w.eraseProg (.prog id)) := by
    refine { Beside.refl w with progs := fun p hp => ?_ }
    rw [prog?_eraseProg, if_neg (hp id hid)]
  have hbytecode : ∀ w : World, Beside ids w { w with bytecode := w.bytecode.erase id } :=
    fun w => by
    refine { Beside.refl w with bytecode := fun y hy => ?_ }
    have hne : y ≠ id := fun heq => hy (heq ▸ hid)
    simp [hne]
  cases maps with
  | true => exact (hprog.trans (beside_dropMaps hid _)).trans (hbytecode _)
  | false => exact hprog.trans (hbytecode _)

/-- "Without references to shared maps, what is not of the batch is as it was." -/
def KeptBeside (ids : ProgramID → Prop) (w w' : World) : Prop :=
  (∀ id, ids id → NoRefs id w.store) → Beside ids w w'

instance : Std.Refl (KeptBeside ids) := ⟨fun w _ => .refl w⟩

instance : IsTrans World (KeptBeside ids) := ⟨fun _ _ _ h h' hr => by
  have hb := h hr
  exact hb.trans (h' (by rwa [hb.store]))⟩

theorem beside_loadBody_err (hown : ∀ sp ∈ specs, sp.mapOwnerID = 0)
    (hshare : ∀ sp ∈ specs, sp.pinByNameMaps = []) (hids : ∀ i < specs.length, ids (e.loadID i))
    (hr : ∀ id, ids id → NoRefs id w.store) (hu : Unpins e) (h : loadBody e specs w = .err err w') :
    Beside ids w w' := by
  refine loadBody_err_lift (R := KeptBeside ids) (fun pre spec post items w₁ heq _ _ => ?_)
    (fun j spec hj w hr => ?_) (fun w f _ => beside_withLog w f) h hr
  · have hmem : spec ∈ specs := by simp [heq]
    have hid : ids (e.loadID pre.length) := hids _ (by simp [heq])
    have hset : spec.mapSetID (e.loadID pre.length) = e.loadID pre.length := if_pos (hown spec hmem)
    refine Touched.beside (touches_loadOne (D := (· = e.loadID pre.length)) (S := fun _ => False)
      (U := False) hset (fun _ name hname => ?_) w₁) hid (fun m hm => hm ▸ hid) (fun _ => id) id
    rw [hshare spec hmem] at hname
    cases hname
  · have hlt : j < specs.length := (List.getElem?_eq_some_iff.1 hj).1
    rw [@unloadLoaded_state _ _ _ spec hu (hr _ (hids j hlt))]
    exact (beside_takeDown (hids j hlt) w _).trans (beside_withLog _ _)

theorem addAll_programs (s : Store) (items : List (ProgramRecord × List String)) :
    (s.addAll items).programs = s.programs ++ items.map (·.1.row) := by
  induction items generalizing s with
  | nil => simp [Store.addAll]
  | cons it items ih =>
    change (Store.addAll _ items).programs = _
    rw [ih]
    simp [Store.addLoaded]

theorem FreshIDs.unrecorded (hf : FreshIDs e specs.length w) :
    Unrecorded (specs.mapIdx fun j spec => (loadedRecord e j spec, spec.pinByNameMaps))
    w.store where
  nodup := by
    rw [List.Nodup, pairwise_iff_getElem]
    intro i j hi hj hlt heq
    simp only [length_map, length_mapIdx] at hi hj
    simp only [getElem_map, getElem_mapIdx, loadedRecord_programID] at heq
    exact absurd (hf.inj i hi j hj heq) (Nat.ne_of_lt hlt)
  fresh it hit := by
    obtain ⟨j, hj, rfl⟩ := mem_mapIdx.1 hit
    exact (hf.unused j hj).program

theorem loadBody_commits (hf : FreshIDs e specs.length w) {records : List ProgramRecord}
    (h : loadBody e specs w = .ok records w') :
    records = specs.mapIdx (loadedRecord e) ∧
      w'.store.programs = w.store.programs ++ records.map (·.row) := by
  obtain ⟨items, w₁, hall, rfl, htx⟩ := loadBody_eq_ok h
  have hitems := hall.items_eq
  simp only [Nat.zero_add] at hitems
  have hstore := hall.store_eq
  subst hitems
  rw [commitBatch_eq_ok (by rw [hstore]; exact hf.unrecorded) htx]
  constructor
  · exact ext_getElem (by simp) fun i _ _ => by simp
  · rw [addAll_programs, hstore, map_map]
    rfl

/-- The rows, the pins, the map directory and the bytecode of `x` are as they were. -/
structure Spared (x : ProgramID) (w w' : World) : Prop where
  program : SameProgram x w w'
  rows : ∀ p : ProgramRow, p.programID = x → (p ∈ w'.store.programs ↔ p ∈ w.store.programs)
  mapSets : w'.store.mapSets = w.store.mapSets
  refs : ∀ name, ⟨name, x⟩ ∈ w'.store.sharedMapPins ↔ ⟨name, x⟩ ∈ w.store.sharedMapPins

theorem Spared.refl (w : World) : Spared x w w :=
  ⟨refl_of (SameProgram x) w, fun _ _ => Iff.rfl, rfl, fun _ => Iff.rfl⟩

instance : Std.Refl (Spared x) := ⟨Spared.refl⟩

instance : IsTrans World (Spared x) := ⟨fun _ _ _ h h' =>
  ⟨trans_of (SameProgram x) h.program h'.program, fun p hp => (h'.rows p hp).trans (h.rows p hp),
    h'.mapSets.trans h.mapSets, fun name => (h'.refs name).trans (h.refs name)⟩⟩

theorem spared_of_store_eq (h : w'.store = w.store) (hp : SameProgram x w w') : Spared x w w' :=
  ⟨hp, fun _ _ => by rw [h], by rw [h], fun _ => by rw [h]⟩

theorem Touched.spared (h : Touched sc w w') (hne : sc.id ≠ x) (hd : ¬ sc.dirs x) :
    Spared x w w' := by
  refine h.lift fun a b hab => ?_
  have hsame : SameProgram x a b := Touched.sameProgram (.single hab) hne hd
  cases hab with
  | dropRefs h =>
    refine ⟨hsame, fun _ _ => Iff.rfl, rfl, fun name => ?_⟩
    simp [Store.deleteSharedMapPins, hne.symm]
  | rmdir h => exact spared_of_store_eq (rmdir_store ..) hsame
  | _ => exact spared_of_store_eq rfl hsame

theorem spared_reap (h : x ∉ reaped e w.store) : Spared x w (reapDeadProgramRecords e w).state := by
  refine keeps_reap (fun w c => spared_of_store_eq rfl (sameProgram_fail w c)) fun id hid => ?_
  have hne : id ≠ x := fun hx => h (hx ▸ hid)
  refine keeps_executeReap (fun _ _ ht => ht.spared hne fun hx => hne hx.symm) fun _ w s hs => ?_
  obtain ⟨-, rfl⟩ := Store.deleteProgram_eq_ok hs
  refine ⟨sameProgram_of_store _ w.failed w, fun p hp => ?_, rfl, fun name => ?_⟩
  · simp [hp, hne.symm]
  · simp [hne.symm]

/-- The world the batch of a load starts from. A load without specs stops before the reap. -/
def batchStart (e : Env) (specs : List LoadSpec) (w : World) : World :=
  if specs.isEmpty then w else (reapDeadProgramRecords e w).state

/-- No row, pin, map directory or bytecode of the batch is left, and everything else is as it
was. -/
structure RolledBack (e : Env) (n : Nat) (w w' : World) : Prop where
  cleared : ∀ i < n, Clear (e.loadID i) w'
  unused : ∀ i < n, Unused (e.loadID i) w'.store
  beside : Beside (fun x => ∃ i < n, x = e.loadID i) w w'

/-- The programs returned are those of the specs in order, and each has one row. -/
structure Committed (e : Env) (specs : List LoadSpec) (w : World) (records : List ProgramRecord)
    (w' : World) : Prop where
  in_order : records = specs.mapIdx (loadedRecord e)
  programs : w'.store.programs = w.store.programs ++ records.map (·.row)
  one_row : ∀ i spec, specs[i]? = some spec →
    w'.store.programs.filter (·.programID = e.loadID i) = [(loadedRecord e i spec).row]

theorem committed_loadBody (hf : FreshIDs e specs.length w) {records : List ProgramRecord}
    (h : loadBody e specs w = .ok records w') : Committed e specs w records w' := by
  obtain ⟨hrecords, hprograms⟩ := loadBody_commits hf h
  refine ⟨hrecords, hprograms, fun i spec hi => ?_⟩
  obtain ⟨hlt, rfl⟩ := List.getElem?_eq_some_iff.1 hi
  have hold : w.store.programs.filter (fun p => decide (p.programID = e.loadID i)) = [] := by
    rw [filter_eq_nil_iff]
    intro p hp heq
    exact (hf.unused i hlt).program p hp (of_decide_eq_true heq)
  have hnodup : ((records.map (·.row)).map (·.programID)).Nodup := by
    have := hf.unrecorded.nodup
    rw [hrecords]
    convert this using 1
    exact ext_getElem (by simp) fun i _ _ => by simp [ProgramRecord.row]
  have hmem : (loadedRecord e i specs[i]).row ∈ records.map (·.row) := by
    rw [hrecords]
    exact mem_map_of_mem (mem_mapIdx.2 ⟨i, hlt, rfl⟩)
  rw [hprograms, filter_append, hold, nil_append]
  exact Table.filter_of_mem hnodup hmem

/-- **A batch is loaded or rolled back**, when its programs own their maps and share none by name,
and the kernel gives them fresh ids. Any call may fail but those the rollback compensates with: the
calls that unpin, and the question whether the map set of a program of the batch is recorded. -/
theorem load_all_or_nothing (hown : ∀ sp ∈ specs, sp.mapOwnerID = 0)
    (hshare : ∀ sp ∈ specs, sp.pinByNameMaps = []) (hf : FreshIDs e specs.length w) (hu : Unpins e)
    (hq : ∀ i < specs.length, e.fails (.mapSetExists (e.loadID i)) = false) :
    (∀ x ∉ reaped e w.store, Spared x w (batchStart e specs w)) ∧
      (∀ err w', load e specs w = .err err w' →
        RolledBack e specs.length (batchStart e specs w) w') ∧
      ∀ records w', load e specs w = .ok records w' →
        Committed e specs (batchStart e specs w) records w' := by
  have hrefs : ∀ id, (∃ i < specs.length, id = e.loadID i) →
      NoRefs id (reapDeadProgramRecords e w).state.store := by
    rintro id ⟨i, hi, rfl⟩
    exact (hf.reap.unused i hi).refs
  refine ⟨fun x hx => ?_, fun err w' h => ?_, fun records w' h => ?_⟩
  · unfold batchStart
    split
    · exact .refl w
    · exact spared_reap hx
  · rcases load_eq_err h with ⟨hno, hw'⟩ | ⟨hne, hv, hbody⟩
    · -- without specs nothing happens, and there are no owners to check
      have hnil : specs = [] := hno.resolve_right fun hinvalid =>
        hinvalid fun sp hsp h0 => absurd (hown sp hsp) h0
      subst hnil
      refine ⟨fun i hi => absurd hi (Nat.not_lt_zero i),
        fun i hi => absurd hi (Nat.not_lt_zero i), ?_⟩
      rcases hw' with rfl | ⟨c, rfl⟩
      · exact .refl _
      · exact beside_withLog w _
    · have hstart : batchStart e specs w = (reapDeadProgramRecords e w).state := by
        simp [batchStart, hne]
      have hbeside := @beside_loadBody_err _ _ _ _
        (fun x => ∃ i < specs.length, x = e.loadID i) _ hown
        hshare (fun i hi => ⟨i, hi, rfl⟩) hrefs hu hbody
      rw [hstart]
      refine ⟨fun i hi => ?_, fun i hi => hbeside.store ▸ hf.reap.unused i hi, hbeside⟩
      have hi' : specs[i]? = some specs[i] := getElem?_eq_getElem hi
      rcases rollback_program hf.reap hu (hf.owner_ne hv) hbody hi' with ⟨⟨hun, -⟩, -⟩ | ⟨-, hc⟩
      · exact absurd hun.2 (by simp [hq i hi])
      · exact hc
  · obtain ⟨hne, -, hbody⟩ := load_eq_ok h
    have hstart : batchStart e specs w = (reapDeadProgramRecords e w).state := by
      simp [batchStart, hne]
    rw [hstart]
    exact committed_loadBody hf.reap hbody

/-- Of two programs the first is loaded and the second cannot be published. -/
theorem load_all_or_nothing_sample :
    RolledBack (env 1 [.publishBytecode 101]) 2
      (batchStart (env 1 [.publishBytecode 101]) [oneMap "a" 0, oneMap "b" 0] {})
      (load (env 1 [.publishBytecode 101]) [oneMap "a" 0, oneMap "b" 0] {}).state := by
  obtain ⟨err, h⟩ := Outcome.eq_err_of_isOk (o := load (env 1 [.publishBytecode 101])
    [oneMap "a" 0, oneMap "b" 0] {}) (by decide +kernel)
  refine (load_all_or_nothing (by decide) (by decide) (freshIDs_empty 1 2 _)
    (unpins_env (by decide)) ?_).2.1 err _ h
  decide

end Bpfman
