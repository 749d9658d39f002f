import Bpfman.Reap

/-!
# The maps of an owner under a failed load

A program that joins the maps of another one records the owner's map directory as its own. The
rollback of a batch leaves that directory alone, and so does a failure inside the kernel adapter,
but the undo of the load plan removes it when the bytecode of the joining program cannot be
published.

* `owner_pins_kept_iff` — a failed load leaves the pins of an owner in place if and only if it does
  not reap the owner and publishes the bytecode of every program it loads into the owner's maps.
-/

namespace Bpfman

open Fallible Proc

variable {e : Env} {w w' : World} {i : Nat} {spec : LoadSpec} {specs : List LoadSpec}
  {id o : ProgramID} {D : ProgramID → Prop} {items : List (ProgramRecord × List String)}
  {err : Err}

/-! ## Relations a failed batch keeps -/

section Relation

variable {R : World → World → Prop} [Std.Refl R] [IsTrans World R]

/-- A batch that fails after the programs `pre`: a relation that every program after them keeps
where it is reached, and that a failed commit and unloading a program keep. -/
theorem loadBody_err_lift_after {pre post : List LoadSpec} {w1 : World}
    (hpre : LoadedAll e 0 pre w items w1)
    (hone : ∀ mid spec rest new wa, post = mid ++ spec :: rest →
      LoadedAll e pre.length mid w1 new wa →
      R wa (loadOne e (pre.length + mid.length) spec wa).state)
    (hunload : ∀ j spec, (pre ++ post)[j]? = some spec →
      Keeps R (unload e (loadedRecord e j spec) [] false)) (hS : ∀ w f, R w { w with failed := f })
    (h : loadBody e (pre ++ post) w = .err err w') : R w1 w' := by
  have hpart : ∀ {mid rest new wa}, post = mid ++ rest → LoadedAll e pre.length mid w1 new wa →
      R w1 wa ∧ Keeps R (cleanupLoaded e ((items ++ new).map (·.1))) := by
    intro mid rest new wa heq hmid
    constructor
    · refine hmid.lift_reached fun pre' spec post' its wb item wc heq' hpre' hl => ?_
      have := hone pre' spec (post' ++ rest) its wb (by simp [heq, heq']) hpre'
      rwa [hl] at this
    · refine keeps_cleanupLoaded fun r hr => ?_
      obtain ⟨j, spec, hj, rfl⟩ := (hpre.append (by rwa [Nat.zero_add])).record_of_mem hr
      rw [Nat.zero_add]
      refine hunload j spec ?_
      rw [heq, ← List.append_assoc, List.getElem?_append_left (List.getElem?_eq_some_iff.1 hj).1,
        hj]
  rcases loadBody_err_after hpre h with
    ⟨mid, spec, rest, new, wa, wb, heq, hmid, hsp, rfl⟩ | ⟨new, wa, wb, hmid, htx, rfl⟩
  · obtain ⟨hwa, hclean⟩ := hpart heq hmid
    have hstop := hone mid spec rest new wa heq hmid
    rw [hsp] at hstop
    exact trans_of R (trans_of R hwa hstop) (hclean wb)
  · obtain ⟨hwa, hclean⟩ := hpart (List.append_nil _).symm hmid
    have hlog : R wa wb := by
      rw [runInTransaction_eq_err (onStore_commitBatch _) htx]
      exact hS wa _
    exact trans_of R (trans_of R hwa hlog) (hclean wb)

theorem loadBody_err_lift
    (hone : ∀ pre spec post items w1, specs = pre ++ spec :: post → LoadedAll e 0 pre w items w1 →
      R w1 (loadOne e pre.length spec w1).state) (hunload : ∀ j spec, specs[j]? = some spec →
      Keeps R (unload e (loadedRecord e j spec) [] false)) (hS : ∀ w f, R w { w with failed := f })
    (h : loadBody e specs w = .err err w') : R w w' :=
  loadBody_err_lift_after (.nil 0 w) (by simpa using hone) hunload hS h

end Relation

/-! ## The owner's directory -/

/-- Every map pinned in the directory of `o` stays pinned there. -/
def PinsKept (o : ProgramID) (w w' : World) : Prop :=
  ∀ name x, w.map? (.map o name) = some x → w'.map? (.map o name) = some x

/-- The batch reaches a program that is to join the maps of `o`, loads it, and cannot publish its
bytecode. -/
def UnpublishedJoiner (e : Env) (specs : List LoadSpec) (o : ProgramID) (w : World) : Prop :=
  ∃ pre spec post items w₁ out w₂, specs = pre ++ spec :: post ∧ spec.mapOwnerID ≠ 0 ∧
    spec.mapOwnerID = o ∧ LoadedAll e 0 pre w items w₁ ∧
    kernelLoad e pre.length spec w₁ = .ok out w₂ ∧
    (e.fails (.publishBytecode (e.loadID pre.length)) = true ∨ e.loadID pre.length ∈ w₂.bytecode)

/-- "Holds before, so holds after", for a set without pins. -/
def StaysEmpty (o : ProgramID) (w w' : World) : Prop := NoPins o w → NoPins o w'

instance : Std.Refl (StaysEmpty o) := ⟨fun _ h => h⟩

instance : IsTrans World (StaysEmpty o) := ⟨fun _ _ _ h h' hw => h' (h hw)⟩

theorem publishBytecode_isErr :
    (∃ err w', publishBytecode e id w = .err err w') ↔
      e.fails (.publishBytecode id) = true ∨ id ∈ w.bytecode := by
  constructor
  · rintro ⟨err, w', h⟩
    refine (prim_eq_err.1 h).1.imp_right fun hnone => ?_
    by_contra hno
    simp [hno] at hnone
  · intro h
    refine ⟨_, _, prim_eq_err.2 ⟨h.imp_right fun hmem => ?_, rfl, rfl⟩⟩
    simp [hmem]

/-! ## The programs of the batch -/

/-- The `i`-th program is to join the maps of `s`, loads, and cannot be published. -/
def UnpublishedInto (e : Env) (i : Nat) (spec : LoadSpec) (s : ProgramID) (w : World) : Prop :=
  spec.mapOwnerID ≠ 0 ∧ spec.mapOwnerID = s ∧ ∃ out w₂, kernelLoad e i spec w = .ok out w₂ ∧
    (e.fails (.publishBytecode (e.loadID i)) = true ∨ e.loadID i ∈ w₂.bytecode)

theorem sameSet_of_wide {α : Type} {m : M α} (h : Keeps (Touched (.wide id D)) m) (ho : ¬ D o) :
    Keeps (SameSet o) m :=
  h.mono fun _ _ ht => ht.sameSet ho

theorem sameSet_publishBytecode : Keeps (SameSet o) (publishBytecode e id) :=
  sameSet_of_wide (D := fun _ => False) touched_publishBytecode fun h => h

theorem sameSet_kernelLoad (h : spec.mapOwnerID = 0 → e.loadID i ≠ o) :
    Keeps (SameSet o) (kernelLoad e i spec) :=
  sameSet_of_wide (D := fun m => spec.mapOwnerID = 0 ∧ m = e.loadID i)
    (touched_kernelLoad (fun h0 => ⟨h0, rfl⟩) fun _ _ _ => trivial) fun ⟨h0, heq⟩ => h h0 heq.symm

/-- A program that is loaded leaves the other sets alone. -/
theorem sameSet_loadOne {item : ProgramRecord × List String}
    (h : spec.mapOwnerID = 0 → e.loadID i ≠ o) (hl : loadOne e i spec w = .ok item w') :
    SameSet o w w' := by
  obtain ⟨-, w1, hk, hp⟩ := loadOne_eq_ok.1 hl
  exact trans_of (SameSet o) ((sameSet_kernelLoad h).ok hk) (sameSet_publishBytecode.ok hp)

/-- So does one that is not, unless it is to join the set and cannot be published. -/
theorem sameSet_loadOne_state (h : spec.mapOwnerID = 0 → e.loadID i ≠ o)
    (hjoin : ¬ UnpublishedInto e i spec o w) : SameSet o w (loadOne e i spec w).state := by
  cases hl : loadOne e i spec w with
  | ok item w' => exact sameSet_loadOne h hl
  | err er w' =>
    rcases loadOne_eq_err hl with ⟨err', hk⟩ | ⟨w1, w2, hk, hp, rfl⟩
    · exact (sameSet_kernelLoad h).err hk
    · have hset : spec.mapSetID (e.loadID i) ≠ o := by
        unfold LoadSpec.mapSetID
        split
        · exact h ‹_›
        · exact fun ho => hjoin ⟨‹_›, ho, _, w1, hk, publishBytecode_isErr.1 ⟨_, _, hp⟩⟩
      have hundo : Keeps (SameSet o) (undoLoad e (loadOutput e i spec)) :=
        sameSet_of_wide (D := (· = spec.mapSetID (e.loadID i))) (touched_undoLoad rfl)
          fun ho => hset ho.symm
      exact trans_of (SameSet o) (trans_of (SameSet o) ((sameSet_kernelLoad h).ok hk)
        (sameSet_publishBytecode.err hp)) (hundo w2)

theorem undoLoad_of_unpins (hu : Unpins e) (i : Nat) (spec : LoadSpec) (w : World) :
    undoLoad e (loadOutput e i spec) w =
      .ok () ((w.eraseProg (.prog (e.loadID i))).dropMaps (spec.mapSetID (e.loadID i))) := by
  unfold undoLoad
  rw [ignore_bind, removePin_of_unpins hu]
  change Outcome.ok () (removeProgramMapsPins e (.mapDir (spec.mapSetID (e.loadID i))) _).state = _
  rw [removeProgramMapsPins_of_unpins hu]
  rfl

/-- A joining program that cannot be published takes the directory with it. -/
theorem loadOne_of_unpublishedInto (hu : Unpins e) (h : UnpublishedInto e i spec o w) :
    ∃ er w1, SameSet o w w1 ∧ loadOne e i spec w = .err er (w1.dropMaps o) := by
  obtain ⟨h0, rfl, out, w1, hk, hfail⟩ := h
  obtain rfl := kernelLoad_output hk
  obtain ⟨er, w2, hp⟩ := publishBytecode_isErr.2 hfail
  have hset : spec.mapSetID (e.loadID i) = spec.mapOwnerID := if_neg h0
  refine ⟨er, w2.eraseProg (.prog (e.loadID i)), ?_, ?_⟩
  · have hload : SameSet spec.mapOwnerID w w1 := (sameSet_kernelLoad fun h => absurd h h0).ok hk
    refine trans_of (SameSet _) (trans_of (SameSet _) hload (sameSet_publishBytecode.err hp)) ?_
    exact sameSet_of_eq rfl rfl
  · rw [loadOne_eq, bind_of_ok (mapErr_eq_ok.2 hk)]
    refine (bind_of_err (onErr_eq_err.2 ⟨w2, hp, rfl⟩)).trans ?_
    rw [undoLoad_of_unpins hu, hset]
    rfl

/-! ## The reap -/

theorem sameSet_executeReap (h : id ≠ o) : Keeps (SameSet o) (executeReapDeadProgramRecord e id) :=
  keeps_executeReap (fun _ _ ht => ht.sameSet fun ho => h ho.symm) fun _ _ _ _ =>
    sameSet_of_eq rfl rfl

theorem staysEmpty_reapRecord : Keeps (StaysEmpty o) (reapRecord e id) :=
  keeps_reapRecord (fun _ _ ht => ht.noPins fun hf => False.elim hf) fun _ _ _ _ h => h

theorem noPins_dropMaps (hdir : .mapDir o ∈ w.dirs) : NoPins o (w.dropMaps o) := fun name => by
  rw [map?_dropMaps hdir]
  exact if_pos rfl

theorem staysEmpty_dropMaps (w : World) : StaysEmpty o w (w.dropMaps id) := fun hw name => by
  by_cases hdir : .mapDir id ∈ w.dirs
  · rw [map?_dropMaps hdir, hw name, ite_self]
  · rw [World.dropMaps, if_neg hdir]
    exact hw name

theorem staysEmpty_executeReap (hu : Unpins e) :
    Keeps (StaysEmpty o) (executeReapDeadProgramRecord e id) := fun w hw => by
  rw [executeReap_eq, removeProgramMapsPins_of_unpins hu]
  exact staysEmpty_reapRecord _ (staysEmpty_dropMaps w hw)

theorem noPins_executeReap (hu : Unpins e) (hdir : .mapDir o ∈ w.dirs) :
    NoPins o (executeReapDeadProgramRecord e o w).state := by
  rw [executeReap_eq, removeProgramMapsPins_of_unpins hu]
  exact staysEmpty_reapRecord _ (noPins_dropMaps hdir)

/-- A plan that reaps the owner empties its map directory: the programs before it leave the
directory in place, and those after it pin nothing there. -/
theorem noPins_forEach_reap (hu : Unpins e) {plan : List ProgramID} (ho : o ∈ plan)
    (hdir : .mapDir o ∈ w.dirs) :
    NoPins o (forEach (executeReapDeadProgramRecord e) plan w).state := by
  induction plan generalizing w with
  | nil => cases ho
  | cons id plan ih =>
    obtain ⟨w1, h1⟩ := executeReap_isOk e id w
    rw [forEach_cons, bind_of_ok h1]
    by_cases hid : id = o
    · subst hid
      have hno : NoPins id w1 := by
        have := noPins_executeReap hu hdir
        rwa [h1] at this
      exact Keeps.forEach (R := StaysEmpty id) (fun _ _ => staysEmpty_executeReap hu) w1 hno
    · exact ih (List.mem_of_ne_of_mem (Ne.symm hid) ho)
        (((sameSet_executeReap hid).ok h1).dir.2 hdir)

theorem noPins_reap (hu : Unpins e) (hdir : .mapDir o ∈ w.dirs) (ho : o ∈ reaped e w.store) :
    NoPins o (reapDeadProgramRecords e w).state := by
  obtain ⟨w0, hw0, heq⟩ := reap_state e w
  rw [heq]
  refine noPins_forEach_reap hu ho ?_
  rcases hw0 with rfl | ⟨c, rfl⟩
  · exact hdir
  · exact hdir

/-- A failed batch that reaches no unpublished joiner leaves the directory of `o` alone. -/
theorem sameSet_loadBody (hid : ∀ i < specs.length, e.loadID i ≠ o)
    (hno : ¬ UnpublishedJoiner e specs o w) (h : loadBody e specs w = .err err w') :
    SameSet o w w' := by
  refine loadBody_err_lift (fun pre spec post items w1 heq hpre => ?_) (fun j spec hj => ?_)
    (fun _ _ => sameSet_of_eq rfl rfl) h
  · refine sameSet_loadOne_state (fun _ => hid _ (by simp [heq])) ?_
    rintro ⟨h0, ho, out, w2, hk, hf⟩
    exact hno ⟨pre, spec, post, items, w1, out, w2, heq, h0, ho, hpre, hk, hf⟩
  · exact sameSet_of_wide (D := (· = e.loadID j)) (touched_unloadLoaded (fun _ => rfl) trivial)
      fun ho => hid j (List.getElem?_eq_some_iff.1 hj).1 ho.symm

theorem noPins_loadBody (hid : ∀ i < specs.length, e.loadID i ≠ o)
    (h : loadBody e specs w = .err err w') (hw : NoPins o w) : NoPins o w' := by
  refine loadBody_err_lift (R := StaysEmpty o) (fun pre spec post items w1 heq _ => ?_)
    (fun j spec hj => ?_) (fun _ _ h => h) h hw
  · exact (touches_loadOne_wide w1).noPins fun _ => hid _ (by simp [heq])
  · exact touched_unloadLoaded_wide.mono fun _ _ ht => ht.noPins fun _ =>
      hid j (List.getElem?_eq_some_iff.1 hj).1

/-- An unpublished joiner takes the maps of its owner with it. -/
theorem noPins_of_unpublishedJoiner (hu : Unpins e) (hdir : .mapDir o ∈ w.dirs)
    (hid : ∀ i < specs.length, e.loadID i ≠ o) (hun : UnpublishedJoiner e specs o w)
    (h : loadBody e specs w = .err err w') : NoPins o w' := by
  obtain ⟨pre, spec, post, items, w1, out, w2, rfl, h0, rfl, hpre, hk, hfail⟩ := hun
  have hlt : ∀ j ≤ pre.length, e.loadID j ≠ spec.mapOwnerID := fun j hj => hid j (by simp; omega)
  obtain ⟨er, w3, hsame, hone⟩ := loadOne_of_unpublishedInto hu ⟨h0, rfl, out, w2, hk, hfail⟩
  -- up to the publication the owner's directory is in place, then it is removed
  have hload : SameSet spec.mapOwnerID w w1 := hpre.lift fun j sp hj a item b hl => by
    have hj' : j < pre.length := (List.getElem?_eq_some_iff.1 hj).1
    rw [Nat.zero_add] at hl
    exact sameSet_loadOne (fun _ => hlt j (by omega)) hl
  have hundo : NoPins spec.mapOwnerID (w3.dropMaps spec.mapOwnerID) :=
    noPins_dropMaps (hsame.dir.2 (hload.dir.2 hdir))
  rw [loadBody_of_stop hpre hone] at h
  obtain ⟨-, rfl⟩ := Outcome.err.inj h
  refine keeps_cleanupLoaded (R := StaysEmpty spec.mapOwnerID) (fun r hr => ?_) _ hundo
  obtain ⟨j, sp, hj, rfl⟩ := hpre.record_of_mem hr
  have hj' : j < pre.length := (List.getElem?_eq_some_iff.1 hj).1
  rw [Nat.zero_add]
  exact touched_unloadLoaded_wide.mono fun _ _ ht => ht.noPins fun _ => hlt j (by omega)

/-- What keeps the maps of the owner `o` through a load that fails: it is not reaped, and the batch
can publish the bytecode of every program it loads into its maps. A load whose owners are not valid
does nothing. -/
def SparesOwner (e : Env) (specs : List LoadSpec) (o : ProgramID) (w : World) : Prop :=
  ¬ OwnersValid e specs w.store ∨
    (o ∉ reaped e w.store ∧ ¬ UnpublishedJoiner e specs o (reapDeadProgramRecords e w).state)

theorem SameSet.pinsKept (h : SameSet o w w') : PinsKept o w w' := fun name x hx => by
  rw [h.pins name, hx]

/-- **The maps of an owner under a failed load.** The batch has programs that join the maps of `o`,
the kernel gives none of its programs the id `o`, and the calls that unpin work. -/
theorem owner_pins_kept_iff (hdir : .mapDir o ∈ w.dirs)
    (hjoin : ∃ spec ∈ specs, spec.mapOwnerID = o) (hid : ∀ i < specs.length, e.loadID i ≠ o)
    (hu : Unpins e) (h : load e specs w = .err err w') :
    PinsKept o w w' ↔ NoPins o w ∨ SparesOwner e specs o w := by
  rcases load_eq_err h with ⟨hno, hw'⟩ | ⟨-, hv, hbody⟩
  · have hsame : SameSet o w w' := by
      rcases hw' with rfl | ⟨c, rfl⟩
      · exact refl_of (SameSet o) _
      · exact sameSet_fail w c
    have hinvalid : ¬ OwnersValid e specs w.store := by
      refine hno.resolve_left ?_
      rintro rfl
      obtain ⟨spec, hmem, -⟩ := hjoin
      cases hmem
    exact iff_of_true hsame.pinsKept (.inr (.inl hinvalid))
  · constructor
    · intro hkept
      by_cases hnone : NoPins o w
      · exact .inl hnone
      have hpins : ¬ NoPins o w' := by
        unfold NoPins at hnone
        push Not at hnone
        obtain ⟨name, hname⟩ := hnone
        obtain ⟨x, hx⟩ := Option.ne_none_iff_exists'.1 hname
        intro hno
        have := hkept name x hx
        rw [hno name] at this
        cases this
      have hreap : o ∉ reaped e w.store := fun ho =>
        hpins (noPins_loadBody hid hbody (noPins_reap hu hdir ho))
      have hdir1 : .mapDir o ∈ (reapDeadProgramRecords e w).state.dirs :=
        (keeps_reap (R := SameSet o) sameSet_fail fun id hmem =>
          sameSet_executeReap fun hne => hreap (hne ▸ hmem)).dir.2 hdir
      exact .inr (.inr ⟨hreap, fun hun =>
        hpins (noPins_of_unpublishedJoiner hu hdir1 hid hun hbody)⟩)
    · rintro (hnone | hinvalid | ⟨hreap, hun⟩)
      · intro name x hx
        rw [hnone name] at hx
        cases hx
      · exact absurd hv hinvalid
      · have hr : SameSet o w (reapDeadProgramRecords e w).state :=
          keeps_reap sameSet_fail fun id hmem => sameSet_executeReap fun hne => hreap (hne ▸ hmem)
        exact (trans_of (SameSet o) hr (sameSet_loadBody hid hun hbody)).pinsKept

namespace Sample

/-- A spec whose object has one map, `m`. -/
def oneMap (name : String) (owner : ProgramID) : LoadSpec where
  programName := name
  programType := .xdp
  mapOwnerID := owner
  maps := [⟨"m", false⟩]
  nodup := by decide

/-- Program 100 is loaded and owns its map. -/
@[irreducible] def owner : World := (load (env 1 []) [oneMap "a" 0] {}).state

/-- The calls `Unpins` is about. -/
def unpinCall : Call → Bool
  | .removeProg _ | .removeMap _ | .rmdir _ | .removeAll _ | .removeBytecode _ => true
  | _ => false

theorem unpins_env {now : Nat} {faults : List Call} (h : ∀ c ∈ faults, unpinCall c = false) :
    Unpins (env now faults) where
  removeProg _ := decide_eq_false fun hmem => Bool.noConfusion (h _ hmem)
  removeMap _ := decide_eq_false fun hmem => Bool.noConfusion (h _ hmem)
  rmdir _ := decide_eq_false fun hmem => Bool.noConfusion (h _ hmem)
  removeAll _ := decide_eq_false fun hmem => Bool.noConfusion (h _ hmem)
  removeBytecode _ := decide_eq_false fun hmem => Bool.noConfusion (h _ hmem)

end Sample

open Sample

/-- Program 200 is to join the maps of 100, and the commit of the batch fails. -/
theorem owner_pins_kept_iff_sample :
    ∃ err w', load (env 2 [.commit]) [oneMap "b" 100] owner = .err err w' ∧
      (PinsKept 100 owner w' ↔ NoPins 100 owner ∨
        SparesOwner (env 2 [.commit]) [oneMap "b" 100] 100 owner) := by
  obtain ⟨err, h⟩ := Outcome.eq_err_of_isOk (o := load (env 2 [.commit])
    [oneMap "b" 100] owner) (by decide +kernel)
  refine ⟨err, _, h, owner_pins_kept_iff (by decide +kernel)
    ⟨_, List.mem_singleton.2 rfl, rfl⟩ ?_ (unpins_env (by decide)) h⟩
  decide

/-- Program 200 is to join the maps of 100 and its bytecode cannot be published: the load fails and
the map of 100 is unpinned. -/
theorem publish_failure_unpins_owner :
    (load (env 2 [.publishBytecode 200]) [oneMap "b" 100] owner).isOk = false ∧
      ¬ PinsKept 100 owner (load (env 2 [.publishBytecode 200]) [oneMap "b" 100] owner).state := by
  refine ⟨by decide +kernel, fun h => ?_⟩
  have hpin : owner.map? (.map 100 "m") = some 100 := by decide +kernel
  have hgone : (load (env 2 [.publishBytecode 200]) [oneMap "b" 100]
      owner).state.map? (.map 100 "m") = none := by decide +kernel
  have := h "m" 100 hpin
  rw [hgone] at this
  cases this

/-! ## The records -/

/-- **A failed load takes no live program's record with it** and leaves none of its own, whatever
the batch is and wherever it stops. -/
theorem failed_load_rows (h : load e specs w = .err err w') :
    w'.store.programs ⊆ w.store.programs ∧
      ∀ p ∈ w.store.programs, e.live p.programID = true → p ∈ w'.store.programs := by
  rcases load_eq_err h with ⟨-, rfl | ⟨c, rfl⟩⟩ | ⟨-, -, hbody⟩
  · exact ⟨List.Subset.refl _, fun _ hp _ => hp⟩
  · exact ⟨List.Subset.refl _, fun _ hp _ => hp⟩
  · have hsame : SameRows (reapDeadProgramRecords e w).state w' :=
      loadBody_err_lift (fun _ _ _ _ w1 _ _ => (touches_loadOne_wide w1).sameRows)
        (fun _ _ _ => touched_unloadLoaded_wide.mono fun _ _ ht => ht.sameRows)
        (fun _ _ => ⟨rfl, rfl⟩) hbody
    rw [hsame.1, reap_programs]
    refine ⟨List.filter_subset_self _, fun p hp hlive => List.mem_filter.2 ⟨hp, ?_⟩⟩
    have hkept : p.programID ∉ reaped e w.store := by
      unfold reaped
      split
      · exact List.not_mem_nil
      · exact fun hplan => by simp [(mem_planReap hplan).2] at hlive
    simp [hkept]

theorem failed_load_rows_sample :
    (load (env 2 [.commit]) [oneMap "b" 100] owner).state.store.programs ⊆
      owner.store.programs := by
  obtain ⟨err, h⟩ := Outcome.eq_err_of_isOk (o := load (env 2 [.commit])
    [oneMap "b" 100] owner) (by decide +kernel)
  exact (failed_load_rows h).1

end Bpfman
