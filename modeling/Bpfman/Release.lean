import Bpfman.UnloadProof

/-!
# The rest of an unload

What `unload` does once the links of the program are taken down: unpin the program, release the
shared maps and the map set, delete the record, remove the dispatchers left empty.

* `Trims` — what the rest may do to the rows of links and programs: only those of the program go;
* `journaled_unloadRest` — it fails only by a failed primitive;
* `unloadRest_gone` — a recorded program and its links are gone after it.
-/

namespace Bpfman

open Fallible Proc Store List

variable {e : Env} {w w' : World} {key : Key} {s s' : Store} {p : ProgramID}
  {record : ProgramRecord} {links : List LinkRecord}

/-- `unload` after its links are detached. -/
def unloadRest (e : Env) (record : ProgramRecord) (links : List LinkRecord) (rebuilt : List Key)
    (persisted : Bool) : M Unit := do
  mapErr (.wrap s!"unload program {record.programID}") (removePin e record.pinPath)
  ignore (cleanupSharedMapPins e record.programID)
  let result ← release e record persisted
  ignore (removeProgramBytecodeDir e record.programID)
  cleanupEmptyDispatchers e ((collectDispatcherKeys links).filter (· ∉ rebuilt))
  lift result

theorem unload_eq (e : Env) (record : ProgramRecord) (links : List LinkRecord) (persisted : Bool) :
    unload e record links persisted = (do
      let rebuilt ← mapErr (.wrap s!"detach links for program {record.programID}")
        (detachAllLinks e links)
      unloadRest e record links rebuilt persisted) := rfl

/-! ## The log -/

theorem journaled_deleteProgramRecord (id : ProgramID) : Journaled (deleteProgramRecord e id) :=
  journaled_write fun _ _ => rfl

theorem journaled_deleteMapSet (id : ProgramID) : Journaled (deleteMapSet e id) :=
  journaled_write fun _ _ => rfl

theorem journaled_deleteSharedMapPins (id : ProgramID) : Journaled (deleteSharedMapPins e id) :=
  journaled_prim fun _ => .some rfl

theorem journaled_removeMapPin (q : MapPinPath) : Journaled (removeMapPin e q) :=
  journaled_prim fun _ => .some rfl

theorem journaled_removeProgramBytecodeDir (id : ProgramID) :
    Journaled (removeProgramBytecodeDir e id) :=
  journaled_prim fun _ => .some rfl

theorem journaled_cleanupSharedMapPins (id : ProgramID) : Journaled (cleanupSharedMapPins e id) :=
  (journaled_deleteSharedMapPins id).bind fun _ =>
    .forEach fun _ _ => .ignore (journaled_removeMapPin _).extend

theorem journaled_removeProgramMapsPins (d : Dir) : Journaled (removeProgramMapsPins e d) := by
  refine (Journaled.read _).bind fun dirs => Journaled.ite ?_ (Journaled.pure ())
  refine (Journaled.read _).bind fun pins =>
    (Journaled.forEach fun q _ => journaled_removeMapPin q).bind fun _ =>
      journaled_prim fun w => .ite (.some ?_) .none
  obtain ⟨D, hD⟩ := w.rmdir_eq d
  rw [hD]

theorem journaled_gcMapSetIfUnused (id : ProgramID) (d : Dir) :
    Journaled (gcMapSetIfUnused e id d) :=
  (journaled_query fun _ => ⟨_, rfl⟩).mapErr.bind fun _ => (Journaled.pure ()).ite
    ((journaled_removeProgramMapsPins d).mapErr.bind fun _ => (journaled_deleteMapSet id).mapErr)

theorem journaled_removeUnrecordedMaps (record : ProgramRecord) :
    Journaled (removeUnrecordedMaps e record) := by
  refine .ite (Journaled.bind ?_ fun remove =>
    (Journaled.ignore (journaled_removeProgramMapsPins _).extend).ite
      (.pure ())) (Journaled.pure ())
  refine (Journaled.attempt logs_query).bind fun r => ?_
  cases r <;> exact .pure _

theorem journaled_release (record : ProgramRecord) (persisted : Bool) :
    Journaled (release e record persisted) := by
  refine .ite ?_ ((journaled_removeUnrecordedMaps record).bind fun _ => .pure _)
  refine (Journaled.attempt (journaled_deleteProgramRecord _).extend).bind fun r => ?_
  cases r with
  | ok u =>
    exact (Journaled.ignore (journaled_gcMapSetIfUnused _ _).extend).bind fun _ => Journaled.pure _
  | error er => exact .pure _

theorem journaled_cleanupEmptyDispatchers (keys : List Key) :
    Journaled (cleanupEmptyDispatchers e keys) :=
  .forEach fun _ _ => .ignore (logs_query.mapErr.bind fun _ =>
    (Keeps.pure ()).ite journaled_removeEmptyDispatcher.extend)

/-- The result of the release is an error only after a failed delete. -/
theorem release_eq_ok {persisted : Bool} {result : Except Err Unit}
    (h : release e record persisted w = .ok result w') :
    result = .ok () ∨ ∃ err, deleteProgramRecord e record.programID w = .err err w' := by
  unfold release at h
  split at h
  · obtain ⟨r, w1, h1, g1⟩ := bind_eq_ok.1 h
    rcases attempt_eq_ok.1 h1 with ⟨u, rfl, -⟩ | ⟨er, rfl, h2⟩
    · obtain ⟨_, w2, -, g2⟩ := bind_eq_ok.1 g1
      cases g2
      exact .inl rfl
    · cases g1
      exact .inr ⟨er, h2⟩
  · obtain ⟨_, w1, -, g1⟩ := bind_eq_ok.1 h
    cases g1
    exact .inl rfl

/-- **The rest of an unload fails only by a failed primitive.** -/
theorem journaled_unloadRest (rebuilt : List Key) (persisted : Bool) :
    Journaled (unloadRest e record links rebuilt persisted) := by
  refine (adapts_removePin _).journaled.mapErr.bind fun _ =>
    (Journaled.ignore (journaled_cleanupSharedMapPins _).extend).bind fun _ => ?_
  refine (journaled_release record persisted).bind_of (P := fun result => result = .ok ())
    ?_ (fun result => ?_) ?_
  · intro w result w' h hlog
    rcases release_eq_ok h with h | ⟨er, hdel⟩
    · exact h
    · exact absurd hlog ((journaled_deleteProgramRecord _).record _ _ _ hdel)
  · exact (journaled_removeProgramBytecodeDir _).extend.ignore.bind fun _ =>
      (journaled_cleanupEmptyDispatchers _).extend.bind fun _ => .lift _
  · rintro result rfl
    exact (Journaled.ignore (journaled_removeProgramBytecodeDir _).extend).bind fun _ =>
      (journaled_cleanupEmptyDispatchers _).bind fun _ => .pure ()

/-! ## The rows of links and programs -/

/-- Only rows of program `p` are gone, besides dispatchers without members. -/
structure Trims (p : ProgramID) (s s' : Store) : Prop where
  programs : ∀ x ∈ s'.programs, x ∈ s.programs
  links : ∀ l ∈ s'.links, l ∈ s.links
  details : ∀ d ∈ s'.details, d ∈ s.details
  dispatchers : ∀ r ∈ s'.dispatchers, r ∈ s.dispatchers
  consistent : s.Consistent → s'.Consistent
  member : s.Consistent → ∀ y, s.IsMemberRow y → y.link.programID ≠ p → s'.IsMemberRow y
  plain : s.Consistent → ∀ l ∈ s.links, ¬ (l.kind = .xdp ∨ l.kind = .tc) → l.programID ≠ p →
    l ∈ s'.links

instance : Std.Refl (Trims p) :=
  ⟨fun _ => ⟨fun _ h => h, fun _ h => h, fun _ h => h, fun _ h => h, id, fun _ _ h _ => h,
    fun _ _ h _ _ => h⟩⟩

instance : IsTrans Store (Trims p) := ⟨fun _ _ _ h h' =>
  ⟨fun x hx => h.programs x (h'.programs x hx), fun l hl => h.links l (h'.links l hl),
    fun d hd => h.details d (h'.details d hd), fun r hr => h.dispatchers r (h'.dispatchers r hr),
    fun hs => h'.consistent (h.consistent hs),
    fun hs y hy hp => h'.member (h.consistent hs) y (h.member hs y hy hp) hp,
    fun hs l hl hk hp => h'.plain (h.consistent hs) l (h.plain hs l hl hk hp) hk hp⟩⟩

/-- The rows the member query reads are all `Consistent` and `Trims` look at. -/
theorem trims_of_eq (hp : s'.programs = s.programs) (hl : s'.links = s.links)
    (hd : s'.details = s.details) (hr : s'.dispatchers = s.dispatchers) : Trims p s s' := by
  obtain ⟨programs', mapSets', links', details', dispatchers', shared', seq'⟩ := s'
  subst hp hl hd hr
  exact ⟨fun _ h => h, fun _ h => h, fun _ h => h, fun _ h => h,
    fun h => { h with codes := h.codes },
    fun _ y hy _ => { hy with detail := hy.detail }, fun _ _ h _ _ => h⟩

theorem Store.deleteProgram_eq_ok (h : s.deleteProgram p = .ok s') :
    (∃ x ∈ s.programs, x.programID = p) ∧
      s' = { s.deleteLinks ((s.links.filter (·.programID = p)).map (·.id)) with
        programs := s.programs.filter (·.programID ≠ p)
        sharedMapPins := s.sharedMapPins.filter (·.programID ≠ p) } := by
  unfold deleteProgram at h
  split at h
  · rename_i hany
    cases h
    exact ⟨by simpa using hany, rfl⟩
  · cases h

theorem mem_programLinks (hs : s.Consistent) {l : LinkRow} (hl : l ∈ s.links) :
    l.id ∈ (s.links.filter (·.programID = p)).map (·.id) ↔ l.programID = p := by
  constructor
  · intro h
    obtain ⟨l', hl', hid⟩ := mem_map.1 h
    obtain ⟨hl', hp⟩ := mem_filter.1 hl'
    rw [← Table.eq_of_key hs.linkIDs hl' hl hid]
    exact of_decide_eq_true hp
  · intro hp
    exact mem_map_of_mem (mem_filter.2 ⟨hl, decide_eq_true hp⟩)

theorem trims_deleteProgram (h : s.deleteProgram p = .ok s') : Trims p s s' := by
  obtain ⟨-, rfl⟩ := deleteProgram_eq_ok h
  refine ⟨fun x hx => (mem_filter.1 hx).1,
    fun l hl => (mem_deleteLinks_links.1 hl).1,
    fun d hd => (mem_deleteLinks_details.1 hd).1, fun r hr => hr, fun hs => ?_,
    fun hs y hy hp => ?_, fun hs l hl _ hp => ?_⟩
  · have hdel := hs.deleteLinks ((s.links.filter (·.programID = p)).map (·.id))
    refine { hdel with
      programIDs := Table.nodup_filter hs.programIDs _
      linkProgram := fun l hl => ?_ }
    obtain ⟨hlm, hnot⟩ := mem_deleteLinks_links.1 hl
    obtain ⟨x, hx, hxl⟩ := hs.linkProgram l hlm
    refine ⟨x, mem_filter.2 ⟨hx, decide_eq_true ?_⟩, hxl⟩
    rw [hxl]
    exact fun hp => hnot ((mem_programLinks hs hlm).2 hp)
  · have hnot : y.link.id ∉ (s.links.filter (·.programID = p)).map (·.id) := fun hmem =>
      hp ((mem_programLinks hs hy.link).1 hmem)
    refine ⟨mem_deleteLinks_details.2 ⟨hy.detail, hy.link_id ▸ hnot⟩,
      mem_deleteLinks_links.2 ⟨hy.link, hnot⟩, mem_filter.2 ⟨hy.program, ?_⟩,
      hy.link_id, hy.program_id⟩
    rw [decide_eq_true_eq, hy.program_id]
    exact hp
  · exact mem_deleteLinks_links.2 ⟨hl, fun hmem => hp ((mem_programLinks hs hl).1 hmem)⟩

/-- Removing a dispatcher without members removes no link. -/
theorem trims_deleteSnapshot (h : s.deleteDispatcherSnapshot key = .ok s')
    (hno : s.Consistent → s.memberRows key = []) : Trims p s s' := by
  have hnone : s.Consistent → ∀ d ∈ s.details, d.key ≠ key := by
    intro hs d hd hk
    obtain ⟨y, hy, rfl⟩ := exists_memberRow hs hd
    have : y ∈ s.memberRows key := (mem_memberRows hs).2 ⟨hy, hk⟩
    rw [hno hs] at this
    cases this
  have hlinks : s.Consistent → s.attachPointLinks key = [] := by
    intro hs
    rw [attachPointLinks, map_eq_nil_iff, filter_eq_nil_iff]
    exact fun d hd => by simpa using hnone hs d hd
  have heq := Store.deleteDispatcherSnapshot_eq_ok h
  refine ⟨fun x hx => by rwa [heq] at hx, fun l hl => ?_, fun d hd => ?_, fun r hr => ?_,
    fun hs => consistent_deleteSnapshot hs h, fun hs y hy _ => ?_, fun hs l hl _ _ => ?_⟩
  · rw [heq] at hl
    exact (mem_deleteLinks_links.1 hl).1
  · rw [heq] at hd
    exact (mem_deleteLinks_details.1 hd).1
  · rw [heq] at hr
    exact (mem_filter.1 hr).1
  · rw [heq, hlinks hs]
    exact ⟨mem_deleteLinks_details.2 ⟨hy.detail, by simp⟩,
      mem_deleteLinks_links.2 ⟨hy.link, by simp⟩, hy.program, hy.link_id, hy.program_id⟩
  · rw [heq, hlinks hs]
    exact mem_deleteLinks_links.2 ⟨hl, by simp⟩

/-! ## The steps -/

/-- `Trims` on the stores of two worlds. -/
def TrimsStore (p : ProgramID) (w w' : World) : Prop := Trims p w.store w'.store

instance : Std.Refl (TrimsStore p) := ⟨fun w => refl_of (Trims p) w.store⟩

instance : IsTrans World (TrimsStore p) := ⟨fun _ _ _ h h' => trans_of (Trims p) h h'⟩

theorem trims_fail (w : World) (c : Call) : TrimsStore p w (w.fail c) := refl_of (Trims p) w.store

theorem trims_of_sameStore {α : Type} {m : M α} (h : Keeps SameStore m) : Keeps (TrimsStore p) m :=
  h.mono fun w w' hst => by
    unfold TrimsStore
    rw [hst]
    exact refl_of (Trims p) w.store

theorem sameStore_removeMapPin (q : MapPinPath) : Keeps SameStore (removeMapPin e q) :=
  sameStore_prim fun _ => .some rfl

theorem sameStore_removeProgramBytecodeDir (id : ProgramID) :
    Keeps SameStore (removeProgramBytecodeDir e id) :=
  sameStore_prim fun _ => .some rfl

theorem keeps_removeProgramMapsPins {R : World → World → Prop} [Std.Refl R] [IsTrans World R]
    {d : Dir} (hfail : ∀ w c, R w (w.fail c)) (hpin : ∀ q, Keeps R (removeMapPin e q))
    (hdir : ∀ w, R w (w.rmdir d)) : Keeps R (removeProgramMapsPins e d) :=
  (Keeps.read _).bind fun _ => .ite ((Keeps.read _).bind fun _ =>
    (Keeps.forEach fun q _ => hpin q).bind fun _ =>
      keeps_prim hfail fun w => .ite (.some (hdir w)) .none) (.pure ())

theorem sameStore_removeProgramMapsPins (d : Dir) : Keeps SameStore (removeProgramMapsPins e d) :=
  keeps_removeProgramMapsPins (fun _ _ => rfl) sameStore_removeMapPin (rmdir_store · d)

theorem trims_cleanupSharedMapPins (id : ProgramID) :
    Keeps (TrimsStore p) (cleanupSharedMapPins e id) :=
  .bind (keeps_prim trims_fail fun _ => .some (trims_of_eq rfl rfl rfl rfl)) fun _ =>
    .forEach fun _ _ => (trims_of_sameStore (sameStore_removeMapPin _)).ignore

theorem Store.deleteMapSet_eq_ok {id : ProgramID} (h : s.deleteMapSet id = .ok s') :
    (∀ x ∈ s.programs, x.mapSetID ≠ id) ∧
    s' = { s with mapSets := s.mapSets.filter (·.id ≠ id) } := by
  unfold deleteMapSet at h
  split at h
  · cases h
  · rename_i hany
    split at h
    · cases h
      exact ⟨by simpa using hany, rfl⟩
    · cases h

theorem trims_gcMapSetIfUnused (id : ProgramID) (d : Dir) :
    Keeps (TrimsStore p) (gcMapSetIfUnused e id d) := by
  refine (keeps_query trims_fail).mapErr.bind fun _ => (Keeps.pure ()).ite
    ((trims_of_sameStore (sameStore_removeProgramMapsPins d)).mapErr.bind fun _ =>
      (keeps_write trims_fail fun w s' hd => ?_).mapErr)
  obtain ⟨-, rfl⟩ := deleteMapSet_eq_ok hd
  exact trims_of_eq rfl rfl rfl rfl

theorem deleteProgramRecord_eq_ok {id : ProgramID} (h : deleteProgramRecord e id w = .ok () w') :
    ∃ s', w.store.deleteProgram id = .ok s' ∧ w' = { w with store := s' } := by
  obtain ⟨-, s', hd, ⟨⟩⟩ := write_eq_ok.1 h
  exact ⟨s', hd, rfl⟩

theorem trims_deleteProgramRecord : Keeps (TrimsStore p) (deleteProgramRecord e p) :=
  keeps_write trims_fail fun _ _ => trims_deleteProgram

theorem trims_release (record : ProgramRecord) (persisted : Bool) :
    Keeps (TrimsStore record.programID) (release e record persisted) := by
  refine .ite ?_ (.bind (.ite ?_ (.pure ())) fun _ =>
    .pure _)
  · refine trims_deleteProgramRecord.attempt.bind fun r => ?_
    cases r with
    | ok u => exact (trims_gcMapSetIfUnused _ _).ignore.bind fun _ => .pure _
    | error er => exact .pure _
  · refine .bind ((keeps_query trims_fail).attempt.bind fun r => ?_) fun remove =>
      (trims_of_sameStore (sameStore_removeProgramMapsPins _)).ignore.ite (.pure ())
    cases r <;> exact .pure _

theorem removeEmptyDispatcher_store (snap : DispatcherSnapshot) (w : World) :
    (removeEmptyDispatcher e snap w).state.store = w.store ∨
      w.store.deleteDispatcherSnapshot snap.key =
        .ok (removeEmptyDispatcher e snap w).state.store := by
  cases h : removeEmptyDispatcher e snap w with
  | ok u w' => exact .inr (removeEmptyDispatcher_eq_ok h)
  | err er w' =>
    refine .inl ?_
    rw [removeEmptyDispatcher_eq] at h
    have houter : Keeps SameStore (detachOuter e snap) := adapts_detachOuter.store
    rcases bind_eq_err.1 h with h1 | ⟨_, w1, h1, g1⟩
    · exact houter.err h1
    · rcases bind_eq_err.1 g1 with h2 | ⟨_, w2, h2, g2⟩
      · cases h2
      · rcases bind_eq_err.1 g2 with h3 | ⟨_, w3, h3, g3⟩
        · cases h3
        · obtain ⟨er', h4, -⟩ := mapErr_eq_err.1 g3
          have hlast : SameStore w3 w' := by
            rw [primErr_eq_err h4]
            rfl
          have hmid : SameStore w2 w3 := (adapts_removeAll _).store.ignore.ok h3
          exact trans_of _ (houter.ok h1) (trans_of _ ((adapts_removePin _).store.ignore.ok h2)
            (trans_of _ hmid hlast))

theorem trims_removeDispatcherIfEmpty (key : Key) :
    Keeps (TrimsStore p) (removeDispatcherIfEmpty e key) := by
  intro w
  refine Keeps.bind_at ((keeps_query trims_fail).mapErr w) fun snap w1 hget => ?_
  obtain ⟨-, hs, rfl⟩ := query_eq_ok.1 (mapErr_eq_ok.1 hget)
  split
  · exact refl_of (TrimsStore p) w1
  · rename_i hlen
    obtain ⟨r, -, -, hsk, -, -, hall⟩ := getDispatcherSnapshot_eq_ok hs
    have hno : w1.store.memberRows key = [] := by
      have := hall.length_eq
      rw [(e.rowOrder.perm _).length_eq, not_not.1 hlen] at this
      exact length_eq_zero_iff.1 this
    unfold TrimsStore
    rcases removeEmptyDispatcher_store (e := e) snap w1 with hsame | hdel
    · rw [hsame]
      exact refl_of (Trims p) _
    · rw [hsk] at hdel
      exact trims_deleteSnapshot hdel fun _ => hno

theorem trims_cleanupEmptyDispatchers (keys : List Key) :
    Keeps (TrimsStore p) (cleanupEmptyDispatchers e keys) :=
  .forEach fun key _ => (trims_removeDispatcherIfEmpty key).ignore

theorem trims_unloadRest (rebuilt : List Key) (persisted : Bool) :
    Keeps (TrimsStore record.programID) (unloadRest e record links rebuilt persisted) :=
  (trims_of_sameStore (adapts_removePin _).store).mapErr.bind fun _ =>
    (trims_cleanupSharedMapPins _).ignore.bind fun _ => (trims_release _ _).bind fun _ =>
      (trims_of_sameStore (sameStore_removeProgramBytecodeDir _)).ignore.bind fun _ =>
        (trims_cleanupEmptyDispatchers _).bind fun _ => .lift _

/-! ## The program is gone -/

/-- Neither the program nor a link of it is in the store. -/
def Store.Forgot (s : Store) (p : ProgramID) : Prop :=
  (∀ x ∈ s.programs, x.programID ≠ p) ∧ ∀ l ∈ s.links, l.programID ≠ p

theorem Store.Forgot.trims {q : ProgramID} (h : s.Forgot p) (ht : Trims q s s') : s'.Forgot p :=
  ⟨fun x hx => h.1 x (ht.programs x hx), fun l hl => h.2 l (ht.links l hl)⟩

theorem forgot_deleteProgram (h : s.deleteProgram p = .ok s') : s'.Forgot p := by
  obtain ⟨-, rfl⟩ := deleteProgram_eq_ok h
  refine ⟨fun x hx => of_decide_eq_true (mem_filter.1 hx).2, fun l hl hp => ?_⟩
  obtain ⟨hlm, hnot⟩ := mem_deleteLinks_links.1 hl
  exact hnot (mem_map_of_mem (mem_filter.2 ⟨hlm, decide_eq_true hp⟩))

/-- A release that reports no error deletes the record. The collection of the set is not
reported. -/
theorem release_eq_ok_ok (h : release e record true w = .ok (.ok ()) w') :
    ∃ st, w.store.deleteProgram record.programID = .ok st ∧
      (gcMapSetIfUnused e record.mapSetID record.mapsDir { w with store := st }).state = w' := by
  obtain ⟨r, w1, h1, g1⟩ := bind_eq_ok.1 (show releaseRecord e record w = .ok (.ok ()) w' from h)
  rcases attempt_eq_ok.1 h1 with ⟨u, rfl, h2⟩ | ⟨er, rfl, -⟩
  · obtain ⟨st, hdel, rfl⟩ := deleteProgramRecord_eq_ok h2
    obtain ⟨_, w2, h3, g2⟩ := bind_eq_ok.1 g1
    cases g2
    exact ⟨st, hdel, (Outcome.ok.inj h3).2⟩
  · cases g1

/-- When no primitive fails, the collection succeeds too. -/
theorem gcMapSetIfUnused_of_release (h : release e record true w = .ok (.ok ()) w')
    (hlog : w'.failed = w.failed) : ∃ st, w.store.deleteProgram record.programID = .ok st ∧
      gcMapSetIfUnused e record.mapSetID record.mapsDir { w with store := st } = .ok () w' := by
  obtain ⟨st, hst, rfl⟩ := release_eq_ok_ok h
  obtain ⟨u, w1, hok, -⟩ := (journaled_gcMapSetIfUnused _ record.mapsDir).isOk
    (show Quiet _ { w with store := st } from hlog)
  refine ⟨st, hst, ?_⟩
  rw [hok, Outcome.state_ok]

/-- A recorded program is gone once its release reports no error. -/
theorem forgot_release (h : release e record true w = .ok (.ok ()) w') :
    w'.store.Forgot record.programID := by
  obtain ⟨st, hdel, rfl⟩ := release_eq_ok_ok h
  exact (forgot_deleteProgram hdel).trims
    (trims_gcMapSetIfUnused (p := record.programID) _ _ { w with store := st })

/-- The collection of a set that succeeds: a set in use stays, another one goes. -/
theorem gcMapSetIfUnused_eq_ok {m : ProgramID} {d : Dir}
    (h : gcMapSetIfUnused e m d w = .ok () w') :
    ((∃ x ∈ w.store.programs, x.mapSetID = m) ∧ w' = w) ∨
      ((∀ x ∈ w.store.programs, x.mapSetID ≠ m) ∧ ∃ w1, removeProgramMapsPins e d w = .ok () w1 ∧
        w' = { w1 with
          store := { w.store with mapSets := w.store.mapSets.filter (·.id ≠ m) } }) := by
  obtain ⟨users, w1, h1, h2⟩ := bind_eq_ok.1 h
  obtain ⟨-, hcount, rfl⟩ := query_eq_ok.1 (mapErr_eq_ok.1 h1)
  obtain rfl := Except.ok.inj hcount
  split at h2
  · rename_i hpos
    cases h2
    obtain ⟨x, hx, hset⟩ := countP_pos_iff.1 hpos
    exact .inl ⟨⟨x, hx, of_decide_eq_true hset⟩, rfl⟩
  · rename_i hzero
    obtain ⟨u, w2, h3, h4⟩ := bind_eq_ok.1 h2
    have hpins := mapErr_eq_ok.1 h3
    have hst : w2.store = w1.store := (sameStore_removeProgramMapsPins d).ok hpins
    refine .inr ⟨fun x hx hset => hzero (countP_pos_iff.2 ⟨x, hx, decide_eq_true hset⟩), w2,
      hpins, ?_⟩
    obtain ⟨-, s', hd, ⟨⟩⟩ := write_eq_ok.1 (mapErr_eq_ok.1 h4)
    rw [(deleteMapSet_eq_ok hd).2, hst]

/-- The steps of the rest of an unload. If it records no failure, neither do the two that release
shared pins and the record. -/
theorem unloadRest_eq_ok {rebuilt : List Key}
    (h : unloadRest e record links rebuilt true w = .ok () w') :
    ∃ w1 w2 w3 w4 keys, removePin e record.pinPath w = .ok () w1 ∧
      (cleanupSharedMapPins e record.programID w1).state = w2 ∧
      release e record true w2 = .ok (.ok ()) w3 ∧
      (removeProgramBytecodeDir e record.programID w3).state = w4 ∧
      cleanupEmptyDispatchers e keys w4 = .ok () w' ∧
      (w'.failed = w.failed → w2.failed = w1.failed ∧ w3.failed = w2.failed) := by
  obtain ⟨_, w1, h1, g1⟩ := bind_eq_ok.1 h
  obtain ⟨_, w2, h2, g2⟩ := bind_eq_ok.1 g1
  obtain ⟨result, w3, h3, g3⟩ := bind_eq_ok.1 g2
  obtain ⟨_, w4, h4, g4⟩ := bind_eq_ok.1 g3
  obtain ⟨_, w5, h5, g5⟩ := bind_eq_ok.1 g4
  obtain ⟨rfl, rfl⟩ := lift_eq_ok.1 g5
  refine ⟨w1, w2, w3, w4, _, mapErr_eq_ok.1 h1, (Outcome.ok.inj h2).2, h3,
    (Outcome.ok.inj h4).2, h5, fun hlog => ?_⟩
  have hl1 : Logs w w1 := (adapts_removePin _).logs.mapErr.ok h1
  have hl2 : Logs w1 w2 := (journaled_cleanupSharedMapPins _).extend.ignore.ok h2
  have hl3 : Logs w2 w3 := (journaled_release record true).extend.ok h3
  have hl5 : Logs w3 w5 :=
    trans_of Logs ((journaled_removeProgramBytecodeDir _).extend.ignore.ok h4)
    ((journaled_cleanupEmptyDispatchers _).extend.ok h5)
  have hlog1 := (Extends.eq_of_eq hl1 (trans_of Logs hl2 (trans_of Logs hl3 hl5)) hlog).2
  obtain ⟨hlog2, hlog3⟩ := Extends.eq_of_eq hl2 (trans_of Logs hl3 hl5) hlog1
  exact ⟨hlog2, (Extends.eq_of_eq hl3 hl5 hlog3).1⟩

/-- **A recorded program and its links are gone after the rest of its unload.** -/
theorem unloadRest_gone {rebuilt : List Key}
    (h : unloadRest e record links rebuilt true w = .ok () w') :
    w'.store.Forgot record.programID := by
  obtain ⟨w1, w2, w3, w4, keys, -, -, h3, rfl, h5, -⟩ := unloadRest_eq_ok h
  have hforgot := forgot_release h3
  have ht4 : TrimsStore record.programID w3 (removeProgramBytecodeDir e _ w3).state :=
    trims_of_sameStore (sameStore_removeProgramBytecodeDir record.programID) w3
  exact (hforgot.trims ht4).trims ((trims_cleanupEmptyDispatchers (p := record.programID) _).ok h5)

end Bpfman
