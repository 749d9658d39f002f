import Bpfman.LoadQuiet
import Bpfman.MapFrame
import Bpfman.Teardown

/-!
# Map sets and their users

A map set has a row in `map_sets` and a directory with the pins of its maps. Its users are the
program that owns it and the programs that joined it, also after the owner is unloaded.

* `SetsInv` — a set is recorded and has its directory if and only if a program uses it;
* `SetsGo` — sets only go, and one that stays keeps its pins;
* `unloadProgram_sets`, `setsKept_deletePrograms` — unloading removes a set with its last user.
-/

namespace Bpfman

open Fallible Proc Store List

variable {e : Env} {w w' : World} {id s : ProgramID} {P : ProgramID → Prop}

/-- A set is recorded and has its directory if and only if a program uses it. -/
structure SetsMatch (w : World) : Prop where
  used : ∀ r ∈ w.store.mapSets, ∃ p ∈ w.store.programs, p.mapSetID = r.id
  recorded : ∀ p ∈ w.store.programs, w.store.mapSetExists p.mapSetID = true
  dir : ∀ s, .mapDir s ∈ w.dirs ↔ w.store.mapSetExists s = true
  pins : ∀ s, .mapDir s ∉ w.dirs → NoPins s w

/-- What `SetsMatch` needs to stay true: the directory of a set is the one recorded, and a program
that is recorded is not loaded again. -/
structure SetsInv (w : World) : Prop extends SetsMatch w where
  path : ∀ r ∈ w.store.mapSets, r.pinPath = .mapDir r.id
  ids : (w.store.programs.map (·.programID)).Nodup
  bytecode : ∀ p ∈ w.store.programs, p.programID ∈ w.bytecode

/-! ## What leaves the sets alone -/

/-- The rows of programs and sets, the map directories and the bytecode of the programs of `P` are
the same. -/
structure SameMaps (P : ProgramID → Prop) (w w' : World) : Prop where
  programs : w'.store.programs = w.store.programs
  mapSets : w'.store.mapSets = w.store.mapSets
  set : ∀ s, SameSet s w w'
  bytecode : ∀ x, P x → (x ∈ w'.bytecode ↔ x ∈ w.bytecode)

instance : Std.Refl (SameMaps P) :=
  ⟨fun w => ⟨rfl, rfl, fun s => refl_of (SameSet s) w, fun _ _ => Iff.rfl⟩⟩

instance : IsTrans World (SameMaps P) := ⟨fun _ _ _ h h' =>
  ⟨h'.programs.trans h.programs, h'.mapSets.trans h.mapSets,
    fun s => trans_of (SameSet s) (h.set s) (h'.set s),
    fun x hx => (h'.bytecode x hx).trans (h.bytecode x hx)⟩⟩

theorem sameMaps_fail (w : World) (c : Call) : SameMaps P w (w.fail c) :=
  ⟨rfl, rfl, fun _ => sameSet_fail w c, fun _ _ => Iff.rfl⟩

theorem MapsUntouched.sameMaps (h : MapsUntouched w w') : SameMaps P w w' where
  programs := h.programs
  mapSets := h.mapSets
  set s := ⟨fun name => by rw [World.map?, h.mapPins]; rfl, h.dir s⟩
  bytecode x _ := by rw [h.bytecode]

theorem sameMaps_cleanupSharedMapPins (id : ProgramID) :
    Keeps (SameMaps P) (cleanupSharedMapPins e id) := by
  refine .bind (keeps_prim sameMaps_fail fun _ =>
    .some ⟨rfl, rfl, fun _ => sameSet_of_eq rfl rfl, fun _ _ => Iff.rfl⟩) fun _ =>
    .forEach fun name _ => .ignore (keeps_prim sameMaps_fail fun w => .some
      ⟨rfl, rfl, fun s => ⟨fun n => ?_, Iff.rfl⟩, fun _ _ => Iff.rfl⟩)
  rw [World.map?_eraseMap, if_neg (by simp)]

theorem SetsInv.sameMaps (h : SetsInv w) (hs : SameMaps (fun _ => True) w w') : SetsInv w' where
  used r hr := by
    rw [hs.mapSets] at hr
    rw [hs.programs]
    exact h.used r hr
  recorded p hp := by
    rw [hs.programs] at hp
    unfold Store.mapSetExists
    rw [hs.mapSets]
    exact h.recorded p hp
  dir s := by
    unfold Store.mapSetExists
    rw [(hs.set s).dir, hs.mapSets]
    exact h.dir s
  pins s hd name := by
    rw [(hs.set s).pins]
    exact h.pins s (fun hmem => hd ((hs.set s).dir.2 hmem)) name
  path r hr := h.path r (hs.mapSets ▸ hr)
  ids := by
    rw [hs.programs]
    exact h.ids
  bytecode p hp := by
    rw [hs.programs] at hp
    exact (hs.bytecode _ trivial).2 (h.bytecode p hp)

/-! ## Unloading -/

/-- What unloading `id`, a user of the set `s`, does: the set goes if no user is left. -/
structure Unloaded (id s : ProgramID) (w w' : World) : Prop where
  programs : w'.store.programs = w.store.programs.filter (·.programID ≠ id)
  bytecode : ∀ x, x ≠ id → (x ∈ w'.bytecode ↔ x ∈ w.bytecode)
  others : ∀ x, x ≠ s → SameSet x w w'
  set : ((∃ p ∈ w'.store.programs, p.mapSetID = s) ∧ w'.store.mapSets = w.store.mapSets ∧
      SameSet s w w') ∨
    ((∀ p ∈ w'.store.programs, p.mapSetID ≠ s) ∧
      w'.store.mapSets = w.store.mapSets.filter (·.id ≠ s) ∧ .mapDir s ∉ w'.dirs ∧ NoPins s w')

theorem Unloaded.before {w1 : World} (h1 : SameMaps (· ≠ id) w w1) (h : Unloaded id s w1 w') :
    Unloaded id s w w' where
  programs := h1.programs ▸ h.programs
  bytecode x hx := (h.bytecode x hx).trans (h1.bytecode x hx)
  others x hx := trans_of (SameSet x) (h1.set x) (h.others x hx)
  set := by
    rw [← h1.mapSets]
    exact h.set.imp_left fun ⟨hu, hm, hsame⟩ => ⟨hu, hm, trans_of (SameSet s) (h1.set s) hsame⟩

theorem Unloaded.after {w1 : World} (h : Unloaded id s w w1) (h1 : SameMaps (· ≠ id) w1 w') :
    Unloaded id s w w' where
  programs := h1.programs.trans h.programs
  bytecode x hx := (h1.bytecode x hx).trans (h.bytecode x hx)
  others x hx := trans_of (SameSet x) (h.others x hx) (h1.set x)
  set := by
    rw [h1.programs, h1.mapSets]
    refine h.set.imp (fun ⟨hu, hm, hsame⟩ => ⟨hu, hm, trans_of (SameSet s) hsame (h1.set s)⟩) ?_
    rintro ⟨hno, hm, hdir, hpins⟩
    exact ⟨hno, hm, fun hd => hdir ((h1.set s).dir.1 hd),
      fun name => ((h1.set s).pins name).trans (hpins name)⟩

theorem sameMaps_removeProgramBytecodeDir (id : ProgramID) :
    Keeps (SameMaps (· ≠ id)) (removeProgramBytecodeDir e id) :=
  keeps_prim sameMaps_fail fun _ =>
    .some ⟨rfl, rfl, fun _ => sameSet_of_eq rfl rfl, fun x hx => by simp [hx]⟩

theorem unloaded_of_gc {st : Store} (hst : w.store.deleteProgram id = .ok st)
    (hdir : .mapDir s ∈ w.dirs)
    (h : gcMapSetIfUnused e s (.mapDir s) { w with store := st } = .ok () w') :
    Unloaded id s w w' := by
  obtain ⟨-, hrows⟩ := deleteProgram_eq_ok hst
  have hprograms : st.programs = w.store.programs.filter (·.programID ≠ id) := by rw [hrows]
  have hsets : st.mapSets = w.store.mapSets := by
    rw [hrows]
    rfl
  have hsame : ∀ x, SameSet x w { w with store := st } := fun x => sameSet_of_eq rfl rfl
  rcases gcMapSetIfUnused_eq_ok h with ⟨huser, rfl⟩ | ⟨hno, _, hrm, heq⟩
  · exact ⟨hprograms, fun _ _ => Iff.rfl, fun x _ => hsame x, Or.inl ⟨huser, hsets, hsame s⟩⟩
  · obtain rfl := removeProgramMapsPins_eq_ok hrm
    have hdrop : ∀ x, SameSet x (World.dropMaps { w with store := st } s) w' := fun x => by
      rw [heq]
      exact sameSet_of_eq rfl rfl
    refine ⟨?_, fun x _ => ?_, fun x hx => ?_, Or.inr ⟨?_, ?_, ?_, ?_⟩⟩
    · rw [heq]
      exact hprograms
    · rw [heq]
      rw [dropMaps_bytecode]
    · exact trans_of (SameSet x) (hsame x) (trans_of (SameSet x) (sameSet_dropMaps hx _) (hdrop x))
    · rw [heq]
      exact hno
    · rw [heq, ← hsets]
    · rw [(hdrop s).dir, mem_dropMaps]
      exact fun hd => hd.2 rfl
    · intro name
      rw [(hdrop s).pins]
      exact noPins_dropMaps (w := { w with store := st }) hdir name

theorem unloaded_of_unloadRest {record : ProgramRecord} {links : List LinkRecord}
    {rebuilt : List Key}
    (hd : record.mapsDir = .mapDir record.mapSetID) (hdir : .mapDir record.mapSetID ∈ w.dirs)
    (h : unloadRest e record links rebuilt true w = .ok () w') (hlog : w'.failed = w.failed) :
    Unloaded record.programID record.mapSetID w w' := by
  obtain ⟨w1, w2, w3, w4, keys, h1, rfl, h3, rfl, h5, hquiet⟩ := unloadRest_eq_ok h
  have hbefore := trans_of (SameMaps (· ≠ record.programID))
    ((mapsUntouched_removePin _).ok h1).sameMaps
    (sameMaps_cleanupSharedMapPins (e := e) record.programID w1)
  have hafter := trans_of (SameMaps (· ≠ record.programID))
    (sameMaps_removeProgramBytecodeDir (e := e) record.programID w3)
    ((mapsUntouched_cleanupEmptyDispatchers _).ok h5).sameMaps
  obtain ⟨st, hst, hgc⟩ := gcMapSetIfUnused_of_release h3 (hquiet hlog).2
  rw [hd] at hgc
  exact (Unloaded.before hbefore (unloaded_of_gc hst ((hbefore.set _).dir.2 hdir) hgc)).after hafter

/-- Sets only go, and one that stays keeps its directory and its pins. -/
structure SetsGo (w w' : World) : Prop where
  old : ∀ s, w'.store.mapSetExists s = true → w.store.mapSetExists s = true
  kept : ∀ s, w'.store.mapSetExists s = true → SameSet s w w'

instance : Std.Refl SetsGo := ⟨fun w => ⟨fun _ h => h, fun s _ => refl_of (SameSet s) w⟩⟩

instance : IsTrans World SetsGo := ⟨fun _ _ _ h h' =>
  ⟨fun s hs => h.old s (h'.old s hs), fun s hs =>
    trans_of (SameSet s) (h.kept s (h'.old s hs)) (h'.kept s hs)⟩⟩

theorem mapSetExists_iff {st : Store} : st.mapSetExists s = true ↔ ∃ r ∈ st.mapSets, r.id = s := by
  simp [Store.mapSetExists]

/-- A user of another set than the unloaded program stays. -/
theorem Unloaded.user {p : ProgramRow} (hu : Unloaded p.programID p.mapSetID w w') (h : SetsInv w)
    (hp : p ∈ w.store.programs) {r : MapSetRow} (hr : r ∈ w.store.mapSets)
    (hne : r.id ≠ p.mapSetID) : ∃ q ∈ w'.store.programs, q.mapSetID = r.id := by
  obtain ⟨q, hq, hqr⟩ := h.used r hr
  refine ⟨q, ?_, hqr⟩
  rw [hu.programs]
  refine mem_filter.2 ⟨hq, decide_eq_true fun heq => hne ?_⟩
  rw [← hqr, Table.eq_of_key h.ids hq hp heq]

/-- **Unloading a program keeps the sets matched with their users.** -/
theorem SetsInv.unloaded (h : SetsInv w) {p : ProgramRow} (hp : p ∈ w.store.programs)
    (hu : Unloaded p.programID p.mapSetID w w') : SetsInv w' ∧ SetsGo w w' := by
  have hmem : ∀ {q}, q ∈ w'.store.programs → q ∈ w.store.programs ∧ q.programID ≠ p.programID := by
    intro q hq
    rw [hu.programs] at hq
    exact ⟨(mem_filter.1 hq).1, of_decide_eq_true (mem_filter.1 hq).2⟩
  have hids : (w'.store.programs.map (·.programID)).Nodup := by
    rw [hu.programs]
    exact Table.nodup_filter h.ids _
  have hbytecode : ∀ q ∈ w'.store.programs, q.programID ∈ w'.bytecode := fun q hq =>
    (hu.bytecode _ (hmem hq).2).2 (h.bytecode q (hmem hq).1)
  rcases hu.set with ⟨huser, hsets, hsame⟩ | ⟨hno, hsets, hdir, hpins⟩
  · -- the set has a user left: no set goes
    have hall : ∀ x, SameSet x w w' := fun x => by
      by_cases hx : x = p.mapSetID
      · exact hx ▸ hsame
      · exact hu.others x hx
    have hexists : ∀ x, w'.store.mapSetExists x = w.store.mapSetExists x := fun x => by
      unfold Store.mapSetExists
      rw [hsets]
    refine ⟨⟨⟨fun r hr => ?_, fun q hq => ?_, fun x => ?_, fun x hx name => ?_⟩, ?_, hids,
      hbytecode⟩, fun x hx => hexists x ▸ hx, fun x _ => hall x⟩
    · rw [hsets] at hr
      by_cases hr' : r.id = p.mapSetID
      · exact hr' ▸ huser
      · exact hu.user h hp hr hr'
    · rw [hexists]
      exact h.recorded q (hmem hq).1
    · rw [hexists, (hall x).dir]
      exact h.dir x
    · rw [(hall x).pins]
      exact h.pins x (fun hd => hx ((hall x).dir.2 hd)) name
    · rw [hsets]
      exact h.path
  · -- its last user is gone, and the set with it
    have hexists : ∀ x, w'.store.mapSetExists x = true ↔
        w.store.mapSetExists x = true ∧ x ≠ p.mapSetID := fun x => by
      rw [mapSetExists_iff, mapSetExists_iff, hsets]
      constructor
      · rintro ⟨r, hr, rfl⟩
        obtain ⟨hr, hne⟩ := mem_filter.1 hr
        exact ⟨⟨r, hr, rfl⟩, of_decide_eq_true hne⟩
      · rintro ⟨⟨r, hr, rfl⟩, hne⟩
        exact ⟨r, mem_filter.2 ⟨hr, decide_eq_true hne⟩, rfl⟩
    refine ⟨⟨⟨fun r hr => ?_, fun q hq => ?_, fun x => ?_, fun x hx => ?_⟩, ?_, hids, hbytecode⟩,
      fun x hx => ((hexists x).1 hx).1, fun x hx => hu.others x ((hexists x).1 hx).2⟩
    · rw [hsets] at hr
      obtain ⟨hr, hne⟩ := mem_filter.1 hr
      exact hu.user h hp hr (of_decide_eq_true hne)
    · exact (hexists _).2 ⟨h.recorded q (hmem hq).1, hno q hq⟩
    · rw [hexists]
      by_cases hx : x = p.mapSetID
      · subst hx
        exact ⟨fun hd => absurd hd hdir, fun hd => absurd rfl hd.2⟩
      · rw [(hu.others x hx).dir, h.dir, and_iff_left hx]
    · by_cases hs : x = p.mapSetID
      · exact hs ▸ hpins
      · have hsame := hu.others x hs
        exact fun name => (hsame.pins name).trans (h.pins x (fun hd => hx (hsame.dir.2 hd)) name)
    · rw [hsets]
      exact fun r hr => h.path r (mem_filter.1 hr).1

theorem SameMaps.setsGo (h : SameMaps P w w') : SetsGo w w' := by
  refine ⟨fun s hs => ?_, fun s _ => h.set s⟩
  unfold Store.mapSetExists at *
  rwa [← h.mapSets]

theorem mapSetID_of_record {st : Store} {p : ProgramRow} {record : ProgramRecord}
    (hrec : st.programRecord p = some record) : record.mapSetID = p.mapSetID := by
  obtain ⟨ms, -, -, rfl⟩ := programRecord_eq_some hrec
  unfold ProgramRecord.mapSetID
  split
  · rename_i hself
    exact hself.symm
  · rfl

theorem SetsInv.record (h : SetsInv w) {record : ProgramRecord}
    (hget : w.store.getProgram id = .ok record) :
    ∃ p ∈ w.store.programs, record.programID = p.programID ∧ record.mapSetID = p.mapSetID ∧
      record.mapsDir = .mapDir p.mapSetID := by
  obtain ⟨p, hp, -, hrec⟩ := getProgram_rows hget
  have hset := mapSetID_of_record hrec
  obtain ⟨ms, hms, hid, rfl⟩ := programRecord_eq_some hrec
  refine ⟨p, hp, rfl, hset, ?_⟩
  rw [← hid]
  exact h.path ms hms

/-- **An unload in which no primitive fails** keeps the sets matched with their users. -/
theorem unloadProgram_sets (h : SetsInv w) (hq : Quiet (unloadProgram e id) w) :
    SetsInv (unloadProgram e id w).state ∧ SetsGo w (unloadProgram e id w).state := by
  have hsame : ∀ {w1 : World}, MapsUntouched w w1 → SetsInv w1 ∧ SetsGo w w1 := fun hu =>
    ⟨h.sameMaps hu.sameMaps, (hu.sameMaps (P := fun _ => True)).setsGo⟩
  cases hget : w.store.getProgram id with
  | error err =>
    cases hrun : mapErr (unmanagedErr e id) (getProgram e id) w with
    | ok record w1 =>
      obtain ⟨hok, -⟩ := getProgram_eq_ok (mapErr_eq_ok.1 hrun)
      cases hget.symm.trans hok
    | err er w1 =>
      have heq : unloadProgram e id w = .err er w1 := bind_of_err hrun
      rw [heq]
      exact hsame ((keeps_query mapsUntouched_fail).mapErr.mapErr.err hrun)
  | ok record =>
    obtain ⟨p, hp, hid, hset, hdir⟩ := h.record hget
    obtain ⟨links, -, heq⟩ := unloadProgram_eq_of_quiet hget hq
    unfold Quiet Proc.Quiet at hq
    rw [heq, unload_eq] at hq ⊢
    cases hall : mapErr (.wrap s!"detach links for program {record.programID}")
        (detachAllLinks e links) w with
    | err er w1 =>
      rw [bind_of_err hall]
      exact hsame ((mapsUntouched_detachAllLinks links).mapErr.err hall)
    | ok rebuilt w1 =>
      have hun : MapsUntouched w w1 := (mapsUntouched_detachAllLinks links).mapErr.ok hall
      have hquiet := (Proc.Quiet.bind hq (logs_detachAllLinks links).mapErr
        (journaled_unloadRest rebuilt true).extend hall).2
      obtain ⟨_, w', hok, hlog⟩ := (journaled_unloadRest rebuilt true).isOk hquiet
      obtain ⟨hinv1, hgo1⟩ := hsame hun
      have hp1 : p ∈ w1.store.programs := hun.programs ▸ hp
      have hrest : Unloaded p.programID p.mapSetID w1 w' := by
        have := unloaded_of_unloadRest (by rw [hset, hdir]) (by
          rw [hset]
          exact (hinv1.dir _).2 (hinv1.recorded p hp1)) hok hlog
        rwa [hid, hset] at this
      obtain ⟨hinv, hgo⟩ := hinv1.unloaded hp1 hrest
      rw [bind_of_ok hall, hok]
      exact ⟨hinv, trans_of SetsGo hgo1 hgo⟩

/-! ## Deleting programs -/

/-- If no primitive failed, the sets are matched with their users as before, and only went. -/
def SetsKept (w w' : World) : Prop :=
  Logs w w' ∧ (w'.failed = w.failed → SetsInv w → SetsInv w' ∧ SetsGo w w')

instance : Std.Refl SetsKept := ⟨fun w => ⟨refl_of Logs w, fun _ h => ⟨h, refl_of SetsGo w⟩⟩⟩

instance : IsTrans World SetsKept := ⟨fun _ _ _ h h' => by
  refine ⟨trans_of Logs h.1 h'.1, fun hlog hinv => ?_⟩
  obtain ⟨hlog₁, hlog₂⟩ := Extends.eq_of_eq h.1 h'.1 hlog
  obtain ⟨hinv₁, hgo₁⟩ := h.2 hlog₁ hinv
  obtain ⟨hinv₂, hgo₂⟩ := h'.2 hlog₂ hinv₁
  exact ⟨hinv₂, trans_of SetsGo hgo₁ hgo₂⟩⟩

theorem setsKept_of_untouched {α : Type} {m : M α} (hl : Keeps Logs m)
    (hu : Keeps MapsUntouched m) : Keeps SetsKept m := fun w =>
  ⟨hl w, fun _ h => ⟨h.sameMaps (hu w).sameMaps, ((hu w).sameMaps (P := fun _ => True)).setsGo⟩⟩

theorem setsKept_unloadProgram (id : ProgramID) : Keeps SetsKept (unloadProgram e id) :=
  fun w => ⟨logs_unloadProgram id w, fun hlog h => unloadProgram_sets h hlog⟩

theorem setsKept_detachAndUnload (id : ProgramID) : Keeps SetsKept (detachAndUnload e id) :=
  (setsKept_of_untouched (logs_listLinksByProgram id) (keeps_query mapsUntouched_fail)).mapErr.bind
    fun links => .bind (setsKept_of_untouched (logs_detachEach links)
      (.forEach fun link _ => (mapsUntouched_detach link.id).mapErr)) fun _ =>
        (setsKept_unloadProgram id).mapErr

theorem setsKept_deletePrograms (ids : List ProgramID) (opts : DeleteProgramsOpts) :
    Keeps SetsKept (deletePrograms e ids opts) :=
  keeps_deletePrograms setsKept_detachAndUnload (keeps_listPrograms
    (setsKept_of_untouched logs_query (keeps_query mapsUntouched_fail))) ids opts

end Bpfman
