import Bpfman.LoadQuiet

/-!
# Which call stops a load

A batch fails at the first of its forward calls that does not work. `loadDemands` lists the calls
that loading one program makes, `commitDemands` those of the transaction, each with what it needs of
the state that it meets: a free path for a pin, a pin to open, no row under an id, no map set under
the id of a program that is to own its maps. The batch is committed exactly if all of them work
(`commits_iff`).

`Hinges` says that an operation succeeds exactly if the calls of a list work; it is composed along
the operation.
-/

namespace Bpfman

open Fallible Proc List

variable {α β : Type} {e : Env} {w w' : World} {i : Nat} {spec : LoadSpec} {specs : List LoadSpec}
  {id : ProgramID} {items : List (ProgramRecord × List String)} {m : M α} {f : α → M β}

/-! ## Demands -/

/-- A call of an operation, and whether the state that it meets lets it through. -/
structure Demand where
  call : Call
  met : Bool

def Demand.Works (e : Env) (d : Demand) : Prop := e.fails d.call = false ∧ d.met = true

/-- The operation succeeds exactly if the calls work. -/
def Hinges (e : Env) (ds : List Demand) (o : Outcome World Err α) : Prop :=
  o.isOk = true ↔ ∀ d ∈ ds, d.Works e

namespace Hinges

variable {ds ds' : List Demand}

theorem pure (a : α) : Hinges e [] ((Pure.pure a : M α) w) := iff_of_true rfl nofun

theorem prim {c : Call} {g : World → Option (α × World)} {met : Bool} (h : (g w).isSome = met) :
    Hinges e [⟨c, met⟩] (prim e c g w) := by
  subst h
  unfold Hinges Demand.Works Bpfman.prim
  cases hc : e.fails c <;> cases g w <;> simp [Outcome.isOk, hc]

theorem primErr {c : Call} {g : World → Except Err (α × World)} {met : Bool}
    (h : (g w).isOk = met) : Hinges e [⟨c, met⟩] (primErr e c g w) := by
  subst h
  unfold Hinges Demand.Works Bpfman.primErr
  cases hc : e.fails c <;> cases g w <;> simp [Outcome.isOk, Except.isOk, Except.toBool, hc]

theorem query {c : Call} {g : Store → Except Err α} {met : Bool} (h : (g w.store).isOk = met) :
    Hinges e [⟨c, met⟩] (query e c g w) := by
  subst h
  unfold Hinges Demand.Works Bpfman.query
  cases hc : e.fails c <;> cases g w.store <;> simp [Outcome.isOk, Except.isOk, Except.toBool, hc]

theorem mapErr {g : Err → Err} (h : Hinges e ds (m w)) : Hinges e ds (Proc.mapErr g m w) := by
  unfold Hinges Proc.mapErr at *
  cases hm : m w <;> simpa [hm] using h

theorem onErr {c : M β} (h : Hinges e ds (m w)) : Hinges e ds (Proc.onErr m c w) := by
  unfold Hinges Proc.onErr at *
  cases hm : m w <;> simpa [hm] using h

theorem bind (hm : Hinges e ds (m w)) (hf : ∀ a w', m w = .ok a w' → Hinges e ds' (f a w')) :
    Hinges e (ds ++ ds') ((m >>= f) w) := by
  unfold Hinges at hm ⊢
  cases h : m w with
  | ok a w' =>
    have hds := hm.1 (by rw [h]; rfl)
    rw [bind_of_ok h]
    refine (hf a w' h).trans ?_
    exact ⟨fun hds' d hd => (mem_append.1 hd).elim (hds d) (hds' d),
      fun hall d hd => hall d (mem_append_right _ hd)⟩
  | err er w' =>
    rw [bind_of_err h]
    refine iff_of_false Bool.false_ne_true fun hall => ?_
    have := hm.2 fun d hd => hall d (mem_append_left _ hd)
    rw [h] at this
    cases this

/-- A call, and then the rest. -/
theorem cons {d : Demand} (hm : Hinges e [d] (m w))
    (hf : ∀ a w', m w = .ok a w' → Hinges e ds' (f a w')) : Hinges e (d :: ds') ((m >>= f) w) :=
  bind hm hf

/-- A loop whose rounds leave alone what the later ones need. -/
theorem forEach {body : β → M Unit} {demands : World → β → List Demand} :
    ∀ (l : List β) (w : World), l.Nodup → (∀ b ∈ l, ∀ w, Hinges e (demands w b) (body b w)) →
      (∀ b ∈ l, ∀ b' ∈ l, b ≠ b' → ∀ w w', body b w = .ok () w' → demands w' b' = demands w b') →
      Hinges e (l.flatMap (demands w)) (Proc.forEach body l w)
  | [], _, _, _, _ => pure ()
  | b :: l, w, hnodup, hbody, hframe => by
    obtain ⟨hnot, hnodup⟩ := nodup_cons.1 hnodup
    rw [forEach_cons, flatMap_cons]
    refine bind (hbody b (mem_cons_self ..) w) fun _ w' h => ?_
    have hsame : l.flatMap (demands w') = l.flatMap (demands w) := by
      refine flatMap_congr fun b' hb' => ?_
      exact hframe b (mem_cons_self ..) b' (mem_cons_of_mem _ hb')
        (fun heq => hnot (heq ▸ hb')) w w' h
    rw [← hsame]
    exact forEach l w' hnodup (fun b hb => hbody b (mem_cons_of_mem _ hb))
      fun b hb b' hb' => hframe b (mem_cons_of_mem _ hb) b' (mem_cons_of_mem _ hb')

end Hinges

/-! ## One program -/

/-- An open of the shared map if it is there, else its creation. -/
def shareDemands (w : World) (name : String) : List Demand :=
  if (w.map? (.shared name)).isSome then [⟨.loadPinnedMap (.shared name), true⟩]
  else [⟨.newMap name, true⟩, ⟨.pinMap (.shared name), true⟩]

/-- The maps of the owner have to be pinned; a shared map is created if it is not. -/
def replacementDemands (spec : LoadSpec) (w : World) : List Demand :=
  if spec.mapOwnerID ≠ 0 then
    spec.mapNames.flatMap fun name =>
      [⟨.loadPinnedMap (.map spec.mapOwnerID name), (w.map? (.map spec.mapOwnerID name)).isSome⟩]
  else if spec.pinByNameMaps.isEmpty then []
  else ⟨.mkdirAll .shared, true⟩ :: spec.pinByNameMaps.flatMap (shareDemands w)

/-- The paths of the maps have to be free. -/
def ownMapDemands (id : ProgramID) (spec : LoadSpec) (w : World) : List Demand :=
  if spec.mapOwnerID = 0 then
    ⟨.mkdirAll (.mapDir id), true⟩ ::
      spec.mapNames.map fun name => ⟨.pinMap (.map id name), (w.map? (.map id name)).isNone⟩
  else []

/-- The calls of the kernel adapter for the `i`-th program, in their order. -/
def kernelDemands (e : Env) (i : Nat) (spec : LoadSpec) (w : World) : List Demand :=
  let id := e.loadID i
  ⟨.loadSpec i, true⟩ :: (replacementDemands spec w ++ [⟨.newCollection i, true⟩]) ++
    ⟨.pinProg (.prog id), (w.prog? (.prog id)).isNone⟩ ::
      (ownMapDemands id spec w ++ [⟨.progInfo id, true⟩])

/-- The calls that loading the `i`-th program makes. -/
def loadDemands (e : Env) (i : Nat) (spec : LoadSpec) (w : World) : List Demand :=
  kernelDemands e i spec w ++ [⟨.publishBytecode (e.loadID i), e.loadID i ∉ w.bytecode⟩]

theorem hinges_call {c : Call} {a : α} : Hinges e [⟨c, true⟩] (prim e c (fun w => some (a, w)) w) :=
  .prim rfl

theorem hinges_loadPinnedMap (q : MapPinPath) (w : World) :
    Hinges e [⟨.loadPinnedMap q, (w.map? q).isSome⟩] (loadPinnedMap e q w) :=
  .prim (by cases w.map? q <;> simp)

theorem hinges_pinMap (q : MapPinPath) (x : World → MapID) (w : World) :
    Hinges e [⟨.pinMap q, (w.map? q).isNone⟩] (pinMap e q x w) :=
  .prim (by cases w.map? q <;> simp)

theorem hinges_shareMap (name : String) (w : World) :
    Hinges e (shareDemands w name) (shareMap e i name w) := by
  unfold shareMap shareDemands
  rw [bind_of_ok (show read (fun w => (w.map? (.shared name)).isSome) w = .ok _ w from rfl)]
  by_cases hin : (w.map? (.shared name)).isSome = true
  · rw [if_pos hin, if_pos hin, ← hin]
    exact (hinges_loadPinnedMap _ w).mapErr
  · rw [if_neg hin, if_neg hin]
    have hfree : (w.map? (.shared name)).isNone = true := by simpa using hin
    refine .cons hinges_call.mapErr fun _ w' h => .mapErr ?_
    obtain ⟨-, ⟨⟩⟩ := prim_eq_ok.1 (mapErr_eq_ok.1 h)
    rw [← hfree]
    exact hinges_pinMap _ _ w

theorem shareMap_frame {name name' : String} (hne : name ≠ name')
    (h : shareMap e i name w = .ok () w') : shareDemands w' name' = shareDemands w name' := by
  have hkeep : Keeps (fun w w' => w'.map? (.shared name') = w.map? (.shared name'))
      (shareMap e i name) := by
    have : Std.Refl fun w w' : World => w'.map? (.shared name') = w.map? (.shared name') :=
      ⟨fun _ => rfl⟩
    have : IsTrans World fun w w' => w'.map? (.shared name') = w.map? (.shared name') :=
      ⟨fun _ _ _ h h' => h'.trans h⟩
    refine (Keeps.read _).bind fun _ => .ite ?_ (.bind ?_ fun _ => ?_)
    · exact .mapErr (keeps_prim (fun _ _ => rfl) fun _ => .ite (.some rfl) .none)
    · exact .mapErr (keeps_prim (fun _ _ => rfl) fun _ => .some rfl)
    · refine .mapErr (keeps_prim (fun _ _ => rfl) fun w => .ite .none (.some ?_))
      rw [World.map?_addMap, if_neg fun heq => hne (MapPinPath.shared.inj heq).symm]
  unfold shareDemands
  rw [hkeep.ok h]

theorem nodup_pinByNameMaps (spec : LoadSpec) : spec.pinByNameMaps.Nodup :=
  spec.nodup.sublist (filter_sublist.map _)

theorem hinges_mapReplacements (w : World) :
    Hinges e (replacementDemands spec w) (mapReplacements e i spec w) := by
  unfold mapReplacements replacementDemands
  split_ifs
  · refine .forEach _ w spec.nodup (fun name _ w => (hinges_loadPinnedMap _ w).mapErr) ?_
    intro name _ name' _ _ w w' h
    obtain ⟨-, h⟩ := prim_eq_ok.1 (mapErr_eq_ok.1 h)
    obtain ⟨-, ⟨⟩⟩ := Option.ite_none_right_eq_some.1 h
    rfl
  · exact .pure ()
  · refine .cons (.mapErr (.prim rfl)) fun _ w' h => ?_
    obtain ⟨-, ⟨⟩⟩ := prim_eq_ok.1 (mapErr_eq_ok.1 h)
    exact .forEach _ (w.mkdirAll .shared) (nodup_pinByNameMaps spec)
      (fun name _ w => hinges_shareMap name w) fun _ _ _ _ hne _ _ h => shareMap_frame hne h

theorem hinges_pinMaps : ∀ (ms : List MapSpec) (pinned : List String) (w : World),
    (ms.map (·.name)).Nodup →
    Hinges e ((ms.map (·.name)).map fun name =>
      ⟨.pinMap (.map id name), (w.map? (.map id name)).isNone⟩) (pinMaps e i id pinned ms w)
  | [], _, _, _ => .pure ()
  | m :: ms, pinned, w, hnodup => by
    obtain ⟨hnot, hnodup⟩ := nodup_cons.1 hnodup
    refine .cons (hinges_pinMap _ _ w).mapErr.onErr fun _ w' h => ?_
    obtain ⟨-, rfl⟩ := pinMap_eq_ok (mapErr_eq_ok.1 (onErr_eq_ok.1 h))
    have hrest := hinges_pinMaps ms (pinned ++ [m.name])
      (w.addMap (.map id m.name) (loadedMap e i m w)) hnodup
    refine (map_congr_left fun name hname => ?_) ▸ hrest
    have hne : MapPinPath.map id name ≠ .map id m.name := by
      rintro ⟨⟩
      exact hnot hname
    rw [World.map?_addMap, if_neg hne]

theorem hinges_pinProgramMaps (w : World) :
    Hinges e (ownMapDemands id spec w) (pinProgramMaps e i id spec w) := by
  unfold pinProgramMaps ownMapDemands
  split_ifs
  · refine .cons (.onErr (.mapErr (.prim rfl))) fun _ w' h => ?_
    obtain ⟨-, ⟨⟩⟩ := prim_eq_ok.1 (mapErr_eq_ok.1 (onErr_eq_ok.1 h))
    exact hinges_pinMaps spec.maps [] _ spec.nodup
  · exact .pure ()

theorem hinges_loadCollection (w : World) :
    Hinges e (⟨.loadSpec i, true⟩ :: (replacementDemands spec w ++ [⟨.newCollection i, true⟩]))
      (loadCollection e i spec w) := by
  refine .cons hinges_call.mapErr fun _ w' h => ?_
  obtain ⟨-, ⟨⟩⟩ := prim_eq_ok.1 (mapErr_eq_ok.1 h)
  exact .bind (hinges_mapReplacements w) fun _ _ _ => hinges_call.mapErr

theorem pinProgramMaps_bytecode (h : pinProgramMaps e i id spec w = .ok () w') :
    w'.bytecode = w.bytecode := by
  unfold pinProgramMaps at h
  split_ifs at h
  · exact (pinMaps_eq_ok (pinOwnMaps_eq_ok h).2).2.1
  · cases h
    rfl

theorem hinges_kernelLoad (w : World) :
    Hinges e (kernelDemands e i spec w) (kernelLoad e i spec w) := by
  refine .bind (hinges_loadCollection w) fun _ w1 hcol => ?_
  have hsame := (sameProgram_loadCollection (x := e.loadID i)).ok hcol
  refine .cons (.mapErr (.prim ?_)) fun _ w2 hpin => ?_
  · rw [← hsame.prog]
    cases w1.prog? (.prog (e.loadID i)) <;> simp
  · obtain ⟨-, rfl⟩ := pinLoaded_eq_ok hpin
    have hmaps : ownMapDemands (e.loadID i) spec w =
        ownMapDemands (e.loadID i) spec (w1.pinLoaded (e.loadID i)) := by
      unfold ownMapDemands
      simp only [← hsame.set.pins]
      rfl
    rw [hmaps]
    refine .bind (hinges_pinProgramMaps _) fun _ w3 _ => ?_
    exact .cons hinges_call.mapErr.onErr fun _ _ _ => .pure _

/-- **Loading one program** succeeds exactly if each of its calls works. -/
theorem hinges_loadOne (e : Env) (i : Nat) (spec : LoadSpec) (w : World) :
    Hinges e (loadDemands e i spec w) (loadOne e i spec w) := by
  rw [loadOne_eq]
  refine .bind (hinges_kernelLoad w).mapErr fun out w1 hk => ?_
  rw [mapErr_eq_ok] at hk
  obtain rfl := kernelLoad_output hk
  obtain ⟨-, w2, hcol, -, hmaps⟩ := kernelLoad_eq_ok hk
  have hcode : e.loadID i ∈ w1.bytecode ↔ e.loadID i ∈ w.bytecode := by
    rw [pinProgramMaps_bytecode hmaps]
    exact (sameProgram_loadCollection.ok hcol).bytecode
  refine .cons (.onErr (.prim ?_)) fun _ _ _ => .pure _
  by_cases hin : e.loadID i ∈ w.bytecode <;> simp [loadOutput, hcode, hin]

/-! ## The transaction -/

/-- The store with the rows of one program. -/
def Store.saveItem (s : Store) (it : ProgramRecord × List String) : Except Err Store :=
  (s.save it.1).map fun s => { s with
    sharedMapPins := it.2.foldl (Store.insertSharedMapPin it.1.programID) s.sharedMapPins }

/-- The calls of the transaction, in their order: no program of the batch has a row, and the store
takes the rows of each after those of the programs before it. -/
def commitDemands : List (ProgramRecord × List String) → Store → List Demand
  | [], _ => [⟨.listPrograms, true⟩, ⟨.commit, true⟩]
  | it :: items, s =>
    ⟨.getProgram it.1.programID, !(s.getProgram it.1.programID).isOk⟩ ::
      match s.saveItem it with
      | .error _ => [⟨.saveProgram it.1.programID, false⟩]
      | .ok s => ⟨.saveProgram it.1.programID, true⟩ ::
        ((if it.2.isEmpty then [] else [⟨.saveSharedMapPins it.1.programID, true⟩]) ++
          commitDemands items s)

theorem isNotFound_getProgram {s : Store} {err : Err} (h : s.getProgram id = .error err) :
    isNotFound err = true := by
  unfold Store.getProgram at h
  split at h
  · cases h
  · cases h
    rfl

/-- A saved program has its row. -/
theorem any_of_save {s s' : Store} {record : ProgramRecord} (h : s.save record = .ok s') :
    s'.programs.any (·.programID = record.programID) = true := by
  obtain ⟨s1, hup, -⟩ := save_steps h
  unfold Store.upsertProgram at hup
  split_ifs at hup with hset hrow
  · cases hup
    obtain ⟨p, hp, hid⟩ := any_eq_true.1 hrow
    exact any_eq_true.2 ⟨record.row, mem_map.2 ⟨p, hp, if_pos (of_decide_eq_true hid)⟩,
      by simp [ProgramRecord.row]⟩
  · cases hup
    simp [ProgramRecord.row]

section Item

variable {record : ProgramRecord} {names : List String}

theorem commitItem_refused (h : ¬ Demand.Works e
    ⟨.getProgram record.programID, !(w.store.getProgram record.programID).isOk⟩) :
    (commitItem e record names w).isOk = false := by
  unfold commitItem getProgramFromStore
  cases hf : e.fails (.getProgram record.programID) with
  | true => simp [attempt, query, bind_apply, hf, isNotFound, fail, Outcome.isOk]
  | false =>
    cases hrow : w.store.getProgram record.programID with
    | ok r => simp [attempt, query, bind_apply, hf, hrow, fail, Outcome.isOk]
    | error err => exact absurd ⟨hf, by rw [hrow]; rfl⟩ h

theorem commitItem_absent (h : Demand.Works e
    ⟨.getProgram record.programID, !(w.store.getProgram record.programID).isOk⟩) :
    commitItem e record names w = saveItem e record names w := by
  obtain ⟨hf, hmet⟩ := h
  unfold commitItem getProgramFromStore
  cases hrow : w.store.getProgram record.programID with
  | ok r =>
    rw [hrow] at hmet
    cases hmet
  | error err =>
    have hn := isNotFound_getProgram hrow
    simp [attempt, query, bind_apply, show e.fails (.getProgram record.programID) = false from hf,
      hrow, hn, saveItem]

end Item

theorem hinges_saveItem {k : M α} (it : ProgramRecord × List String) {demands : Store → List Demand}
    (hk : ∀ w, Hinges e (demands w.store) (k w)) (w : World) :
    Hinges e (match w.store.saveItem it with
      | .error _ => [⟨.saveProgram it.1.programID, false⟩]
      | .ok s => ⟨.saveProgram it.1.programID, true⟩ ::
        ((if it.2.isEmpty then [] else [⟨.saveSharedMapPins it.1.programID, true⟩]) ++ demands s))
      ((saveItem e it.1 it.2 >>= fun _ => k) w) := by
  unfold saveItem Store.saveItem
  rw [bind_assoc]
  cases hs : w.store.save it.1 with
  | error er =>
    refine .cons (.mapErr (.primErr (by rw [hs]; rfl))) ?_
    intro _ w' h
    obtain ⟨s', hs', -⟩ := saveProgram_eq_ok (mapErr_eq_ok.1 h)
    cases hs.symm.trans hs'
  | ok s =>
    refine .cons (.mapErr (.primErr (by rw [hs]; rfl))) fun _ w1 h => ?_
    obtain ⟨s', hs', rfl⟩ := saveProgram_eq_ok (mapErr_eq_ok.1 h)
    obtain rfl := Except.ok.inj (hs.symm.trans hs')
    obtain ⟨record, names⟩ := it
    cases names with
    | nil => exact hk _
    | cons name names =>
      refine .cons (.mapErr (.primErr ?_)) fun _ w2 h => ?_
      · simp only [Store.saveSharedMapPins, any_of_save hs, if_true]
        rfl
      · obtain rfl := saveSharedMapPins_eq_ok (mapErr_eq_ok.1 h)
        exact hk _

/-- **The transaction** succeeds exactly if each of its calls works. The induction is on the batch;
a round meets the store with the rows of the programs before. -/
theorem hinges_commitItems {rest : M Unit}
    (hrest : ∀ w, Hinges e [⟨.listPrograms, true⟩, ⟨.commit, true⟩] (rest w)) :
    ∀ (items : List (ProgramRecord × List String)) (w : World),
      Hinges e (commitDemands items w.store)
        ((forEach (fun it => commitItem e it.1 it.2) items >>= fun _ => rest) w)
  | [], w => hrest w
  | it :: items, w => by
    rw [forEach_cons, bind_assoc]
    by_cases habsent : Demand.Works e
        ⟨.getProgram it.1.programID, !(w.store.getProgram it.1.programID).isOk⟩
    · have hsave := hinges_saveItem it (hinges_commitItems hrest items) w
      rw [bind_apply, commitItem_absent habsent, ← bind_apply]
      refine hsave.trans ?_
      rw [commitDemands, forall_mem_cons]
      exact (and_iff_right habsent).symm
    · obtain ⟨er, hstop⟩ := Outcome.eq_err_of_isOk (@commitItem_refused _ _ _ it.2 habsent)
      rw [bind_of_err hstop]
      exact iff_of_false Bool.false_ne_true fun hall => habsent (hall _ (mem_cons_self ..))

theorem commit_isOk (w : World) :
    (∃ w', runInTransaction e (commitBatch e items) w = .ok () w') ↔
      ∀ d ∈ commitDemands items w.store, d.Works e := by
  have hrest : ∀ w, Hinges e [⟨.listPrograms, true⟩, ⟨.commit, true⟩] (((do
      let _ ← mapErr (.wrap "list programs for map users") (listProgramsFromStore e)
      pure ()) >>= fun _ => prim e .commit fun w => some ((), w) : M Unit) w) := fun w =>
    .cons (.cons (.mapErr (.query rfl)) fun _ _ _ => .pure _) fun _ _ _ => hinges_call
  refine Iff.trans ?_ (hinges_commitItems hrest items w)
  rw [← bind_assoc]
  unfold runInTransaction
  change _ ↔ Outcome.isOk
    ((commitBatch e items >>= fun _ => prim e .commit fun w => some ((), w)) w) = _
  split
  · rename_i w' h
    rw [h]
    exact iff_of_true ⟨w', rfl⟩ rfl
  · rename_i er w' h
    rw [h]
    exact iff_of_false nofun nofun

/-! ## The batch -/

/-- The batch loads all its programs and commits them. -/
def Commits (e : Env) (specs : List LoadSpec) (w : World) : Prop :=
  ∃ items w₁ w₂, LoadedAll e 0 specs w items w₁ ∧
    runInTransaction e (commitBatch e items) w₁ = .ok () w₂

/-- What the batch is to commit. -/
def loadedItems (e : Env) (specs : List LoadSpec) : List (ProgramRecord × List String) :=
  specs.mapIdx fun j spec => (loadedRecord e j spec, spec.pinByNameMaps)

/-- A forward call of the batch does not work: one of loading a program that it reaches, or one of
the transaction. -/
def Halts (e : Env) (specs : List LoadSpec) (w : World) : Prop :=
  (∃ pre spec post items w₁, specs = pre ++ spec :: post ∧ LoadedAll e 0 pre w items w₁ ∧
    ∃ d ∈ loadDemands e pre.length spec w₁, ¬ d.Works e) ∨
  ∃ d ∈ commitDemands (loadedItems e specs) w.store, ¬ d.Works e

/-- The programs load one after the other, or a call of one of them does not work. -/
theorem loadedAll_or_halts : ∀ (specs : List LoadSpec) (i : Nat) (w : World),
    (∃ items w', LoadedAll e i specs w items w') ∨
      ∃ pre spec post items w₁, specs = pre ++ spec :: post ∧ LoadedAll e i pre w items w₁ ∧
        ∃ d ∈ loadDemands e (i + pre.length) spec w₁, ¬ d.Works e
  | [], i, w => .inl ⟨[], w, .nil i w⟩
  | spec :: specs, i, w => by
    have hone := hinges_loadOne e i spec w
    by_cases hall : ∀ d ∈ loadDemands e i spec w, d.Works e
    · obtain ⟨item, hok⟩ := Outcome.eq_ok_of_isOk (hone.2 hall)
      rcases loadedAll_or_halts specs (i + 1) (loadOne e i spec w).state with
        ⟨items, w', h⟩ | ⟨pre, sp, post, items, w₁, rfl, h, hno⟩
      · exact .inl ⟨_, w', .cons hok h⟩
      · refine .inr ⟨spec :: pre, sp, post, _, w₁, rfl, .cons hok h, ?_⟩
        rwa [length_cons, ← Nat.add_assoc, Nat.add_right_comm]
    · push Not at hall
      exact .inr ⟨[], spec, specs, [], w, rfl, .nil i w, hall⟩

/-- **A batch is committed** exactly if no forward call of it stops it. -/
theorem commits_iff : Commits e specs w ↔ ¬ Halts e specs w := by
  have hcommit : ∀ {items w'}, LoadedAll e 0 specs w items w' →
      ((∃ w₂, runInTransaction e (commitBatch e items) w' = .ok () w₂) ↔
        ∀ d ∈ commitDemands (loadedItems e specs) w.store, d.Works e) := by
    intro items w' h
    rw [commit_isOk, h.store_eq, h.items_eq]
    simp only [Nat.zero_add, loadedItems]
  constructor
  · rintro ⟨items, w', w₂, h, htx⟩
      (⟨pre, spec, post, its, w₁, rfl, hpre, d, hd, hno⟩ | ⟨d, hd, hno⟩)
    · -- the program at which the batch halts was loaded
      have hstop : (loadOne e (0 + pre.length) spec w₁).isOk = false := by
        rw [Nat.zero_add, ← Bool.not_eq_true]
        exact fun hok => hno ((hinges_loadOne e pre.length spec w₁).1 hok d hd)
      obtain ⟨er, hstop⟩ := Outcome.eq_err_of_isOk hstop
      have herr := @loadAll_of_stop _ _ _ _ _ [] _ post _ _ _ hpre hstop
      rw [h.loadAll_eq] at herr
      cases herr
    · exact hno ((hcommit h).1 ⟨w₂, htx⟩ d hd)
  · intro hno
    rcases loadedAll_or_halts (e := e) specs 0 w with
      ⟨items, w', h⟩ | ⟨pre, spec, post, items, w₁, heq, h, hd⟩
    · obtain ⟨w₂, htx⟩ := (hcommit h).2 fun d hd => by
        by_contra hd'
        exact hno (.inr ⟨d, hd, hd'⟩)
      exact ⟨items, w', w₂, h, htx⟩
    · rw [Nat.zero_add] at hd
      exact absurd (.inl ⟨pre, spec, post, items, w₁, heq, h, hd⟩) hno

end Bpfman
