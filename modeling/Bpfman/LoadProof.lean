import Bpfman.Load
import Bpfman.AdapterProof
import Bpfman.OperationProof
import Mathlib.Logic.Relation

/-!
# What loading a program touches

* `Touch id D` — one change that loading or unloading the program `id` makes outside the store, when
  the map directories it works on are those of `D`; `Touched` is any number of them;
* `loadOne_eq` — the plan of one program as a sequence with one compensation;
* `loadAll_eq_err`, `loadAll_eq_ok` — the batch loop as the programs loaded before it stopped.
-/

namespace Bpfman

open Fallible Proc List Store

variable {e : Env} {w w' : World} {i : Nat} {spec : LoadSpec} {id : ProgramID} {D : ProgramID →
  Prop} {S : String → Prop} {U : Prop} {record : ProgramRecord} {s s' : Store} {names : List String}

/-! ## Changes -/

/-- What an operation on a program works on: the program, the map directories, the shared maps it
may create, and whether it releases references to shared maps. -/
structure Scope where
  id : ProgramID
  dirs : ProgramID → Prop
  shares : String → Prop
  releases : Prop

/-- A scope with every shared map in it. -/
def Scope.wide (id : ProgramID) (D : ProgramID → Prop) : Scope := ⟨id, D, fun _ => True, True⟩

/-- A change of the world within a scope. Maps are only pinned in the directory of the program
itself and as shared maps that were not there. Of the store only references to shared maps
change. -/
inductive Touch (sc : Scope) : World → World → Prop
  | log (w : World) (c : Call) : Touch sc w (w.fail c)
  | pinProg (w : World) (x : Prog) : Touch sc w (w.addProg (.prog sc.id) x)
  | unpinProg (w : World) : Touch sc w (w.eraseProg (.prog sc.id))
  | pinMap (w : World) (h : sc.dirs sc.id) (name : String) (x : MapID) :
      Touch sc w (w.addMap (.map sc.id name) x)
  | unpinMap (w : World) {m : ProgramID} (h : sc.dirs m) (name : String) :
      Touch sc w (w.eraseMap (.map m name))
  | mkdir (w : World) (h : sc.dirs sc.id) : Touch sc w (w.mkdirAll (.mapDir sc.id))
  | rmdir (w : World) {m : ProgramID} (h : sc.dirs m) : Touch sc w (w.rmdir (.mapDir m))
  | removeAll (w : World) {m : ProgramID} (h : sc.dirs m) : Touch sc w (w.removeAll (.mapDir m))
  | mkdirShared (w : World) (h : ∃ name, sc.shares name) : Touch sc w (w.mkdirAll .shared)
  | share (w : World) (name : String) (x : MapID) (hs : sc.shares name)
      (h : w.map? (.shared name) = none) : Touch sc w (w.addMap (.shared name) x)
  | publish (w : World) : Touch sc w { w with bytecode := insert sc.id w.bytecode }
  | unpublish (w : World) : Touch sc w { w with bytecode := w.bytecode.erase sc.id }
  | dropRefs (w : World) (h : sc.releases) :
      Touch sc w { w with store := (w.store.deleteSharedMapPins sc.id).2 }
  | unshare (w : World) (h : sc.releases) (name : String) : Touch sc w (w.eraseMap (.shared name))

/-- Any number of changes. -/
def Touched (sc : Scope) : World → World → Prop := Relation.ReflTransGen (Touch sc)

instance {sc : Scope} : Std.Refl (Touched sc) := ⟨fun _ => .refl⟩

instance {sc : Scope} : IsTrans World (Touched sc) := ⟨fun _ _ _ h h' => h.trans h'⟩

variable {sc : Scope}

theorem touched_fail (w : World) (c : Call) : Touched sc w (w.fail c) := .single (.log w c)

theorem Touched.lift {R : World → World → Prop} [Std.Refl R] [IsTrans World R]
    (hR : ∀ w w', Touch sc w w' → R w w') (h : Touched sc w w') : R w w' := by
  induction h with
  | refl => exact refl_of R w
  | tail _ hab ih => exact trans_of R ih (hR _ _ hab)

theorem Touched.mono {S' : String → Prop} {U' : Prop} {D' : ProgramID → Prop}
    (hD : ∀ m, D m → D' m) (hS : ∀ name, S name → S' name) (hU : U → U')
    (h : Touched ⟨id, D, S, U⟩ w w') : Touched ⟨id, D', S', U'⟩ w w' := by
  refine h.lift fun a b hab => .single ?_
  cases hab with
  | log c => exact .log _ c
  | pinProg x => exact .pinProg _ x
  | unpinProg => exact .unpinProg _
  | pinMap h name x => exact .pinMap _ (hD _ h) name x
  | unpinMap h name => exact .unpinMap _ (hD _ h) name
  | mkdir h => exact .mkdir _ (hD _ h)
  | rmdir h => exact .rmdir _ (hD _ h)
  | removeAll h => exact .removeAll _ (hD _ h)
  | mkdirShared h => exact .mkdirShared _ (h.imp fun name => hS name)
  | share name x hs h => exact .share _ name x (hS _ hs) h
  | publish => exact .publish _
  | unpublish => exact .unpublish _
  | dropRefs h => exact .dropRefs _ (hU h)
  | unshare h name => exact .unshare _ (hU h) name

/-- The program references no shared map. -/
def NoRefs (id : ProgramID) (s : Store) : Prop := ∀ r ∈ s.sharedMapPins, r.programID ≠ id

theorem deleteSharedMapPins_of_noRefs (h : NoRefs id s) : s.deleteSharedMapPins id = ([], s) := by
  have hnames : s.sharedMapPins.filter (fun r => decide (r.programID = id)) = [] := by
    simpa [filter_eq_nil_iff, NoRefs] using h
  have hrows : s.sharedMapPins.filter (fun r => decide (r.programID ≠ id)) = s.sharedMapPins := by
    simpa [filter_eq_self, NoRefs] using h
  unfold Store.deleteSharedMapPins
  rw [hnames, hrows]
  rfl

/-- Of the store only references to shared maps go. -/
theorem Touched.refs (h : Touched sc w w') : ∃ refs ⊆ w.store.sharedMapPins,
    w'.store = { w.store with sharedMapPins := refs } := by
  induction h with
  | refl => exact ⟨_, List.Subset.refl _, rfl⟩
  | tail _ hab ih =>
    obtain ⟨refs, hsub, heq⟩ := ih
    cases hab with
    | rmdir h => exact ⟨refs, hsub, by rw [rmdir_store, heq]⟩
    | dropRefs h => exact ⟨_, fun r hr => hsub (mem_filter.1 hr).1, by rw [heq]; rfl⟩
    | _ => exact ⟨refs, hsub, heq⟩

/-- Without references to shared maps the store does not change. -/
theorem Touched.store (h : Touched sc w w') (hr : sc.releases → NoRefs sc.id w.store) :
    w'.store = w.store := by
  induction h with
  | refl => rfl
  | tail _ hab ih =>
    cases hab with
    | rmdir h => rw [rmdir_store, ih]
    | dropRefs h =>
      rw [ih, deleteSharedMapPins_of_noRefs (hr h)]
    | _ => exact ih

/-! ## The kernel adapter -/

theorem touched_loadPinnedMap (p : MapPinPath) :
    Keeps (Touched ⟨id, D, S, U⟩) (loadPinnedMap e p) :=
  keeps_prim touched_fail fun _ => .ite (.some .refl) .none

theorem touched_read {α : Type} {c : Call} {a : α} :
    Keeps (Touched ⟨id, D, S, U⟩) (prim e c fun w => some (a, w)) :=
  keeps_prim touched_fail fun _ => .some .refl

theorem touched_shareMap {name : String} (hs : S name) :
    Keeps (Touched ⟨id, D, S, U⟩) (shareMap e i name) := by
  refine (Keeps.read _).bind fun present => Keeps.ite ?_ ?_
  · exact (touched_loadPinnedMap _).mapErr
  · refine touched_read.mapErr.bind fun _ => .mapErr (keeps_prim touched_fail ?_)
    intro w a w' h
    obtain ⟨hnone, ⟨⟩⟩ := Option.ite_none_left_eq_some.1 h
    exact .single (.share w name _ hs (by simpa using hnone))

theorem touched_mapReplacements (hS : spec.mapOwnerID = 0 → ∀ name ∈ spec.pinByNameMaps, S name) :
    Keeps (Touched ⟨id, D, S, U⟩) (mapReplacements e i spec) := by
  unfold mapReplacements
  split
  · exact .forEach fun _ _ => (touched_loadPinnedMap _).mapErr
  · rename_i h0
    have hS' := hS (not_not.1 h0)
    split
    · exact .pure ()
    · rename_i hne
      obtain ⟨name, hname⟩ := exists_mem_of_ne_nil _ fun hnil => hne (isEmpty_iff.2 hnil)
      exact .bind (.mapErr (keeps_prim touched_fail fun w =>
        .some (.single (.mkdirShared w ⟨name, hS' name hname⟩)))) fun _ =>
        .forEach fun name hname => touched_shareMap (hS' name hname)

theorem touched_removeMapPin {m : ProgramID} (hm : D m) (name : String) :
    Keeps (Touched ⟨id, D, S, U⟩) (removeMapPin e (.map m name)) :=
  keeps_prim touched_fail fun w => .some (.single (.unpinMap w hm name))

theorem touched_removePin : Keeps (Touched ⟨id, D, S, U⟩) (removePin e (.prog id)) :=
  keeps_prim touched_fail fun w => .some (.single (.unpinProg w))

theorem touched_unpinLoaded {pinned : List String} (hid : pinned ≠ [] → D id) :
    Keeps (Touched ⟨id, D, S, U⟩) (unpinLoaded e id pinned) := by
  refine .bind (.forEach fun name hname => ?_) fun _ => touched_removePin.ignore
  have hne : pinned ≠ [] := ne_nil_of_mem (mem_reverse.1 hname)
  exact (touched_removeMapPin (hid hne) name).ignore

theorem touched_discardLoaded (hid : D id) (pinned : List String) :
    Keeps (Touched ⟨id, D, S, U⟩) (discardLoaded e id pinned) :=
  (touched_unpinLoaded fun _ => hid).bind fun _ => .ignore <|
    keeps_prim touched_fail fun w => .some (.single (.removeAll w hid))

theorem touched_pinMaps (hid : D id) :
    ∀ (ms : List MapSpec) (pinned : List String),
      Keeps (Touched ⟨id, D, S, U⟩) (pinMaps e i id pinned ms)
  | [], _ => .pure ()
  | m :: ms, pinned =>
    .bind (.onErr (.mapErr (keeps_prim touched_fail fun w =>
      .ite .none (.some (.single (.pinMap w hid m.name _)))))
      (touched_discardLoaded hid pinned)) fun _ => touched_pinMaps hid ms _

theorem touched_pinOwnMaps (hid : D id) : Keeps (Touched ⟨id, D, S, U⟩) (pinOwnMaps e i id spec) :=
  .bind (.onErr (.mapErr (keeps_prim touched_fail fun w => .some (.single (.mkdir w hid))))
    (touched_unpinLoaded fun h => absurd rfl h)) fun _ => touched_pinMaps hid _ _

theorem touched_pinProgramMaps (hD : spec.mapOwnerID = 0 → D id) :
    Keeps (Touched ⟨id, D, S, U⟩) (pinProgramMaps e i id spec) := by
  unfold pinProgramMaps
  split
  · exact touched_pinOwnMaps (hD ‹_›)
  · exact .pure ()

theorem touched_abandonLoad (hD : spec.mapOwnerID = 0 → D id) :
    Keeps (Touched ⟨id, D, S, U⟩) (abandonLoad e id spec) := by
  unfold abandonLoad
  split
  · exact touched_discardLoaded (hD ‹_›) _
  · exact touched_unpinLoaded fun h => absurd rfl h

theorem touched_loadCollection (hS : spec.mapOwnerID = 0 → ∀ name ∈ spec.pinByNameMaps, S name) :
    Keeps (Touched ⟨id, D, S, U⟩) (loadCollection e i spec) :=
  touched_read.mapErr.bind fun _ => (touched_mapReplacements hS).bind fun _ => touched_read.mapErr

/-- Loading a program touches its own pin, its own map directory if it is to own its maps, and
shared maps that were not there. -/
theorem touched_kernelLoad (hD : spec.mapOwnerID = 0 → D (e.loadID i))
    (hS : spec.mapOwnerID = 0 → ∀ name ∈ spec.pinByNameMaps, S name) :
    Keeps (Touched ⟨e.loadID i, D, S, U⟩) (kernelLoad e i spec) :=
  (touched_loadCollection hS).bind fun _ => .bind (.mapErr (keeps_prim touched_fail fun w =>
    .ite .none (.some (.single (.pinProg w _))))) fun _ =>
    (touched_pinProgramMaps hD).bind fun _ =>
      (touched_read.mapErr.onErr (touched_abandonLoad hD)).bind fun _ => .pure _

/-- The program is pinned: nothing was pinned in its place and the call works. -/
def Pinnable (e : Env) (id : ProgramID) (w : World) : Prop :=
  e.fails (.pinProg (.prog id)) = false ∧ w.prog? (.prog id) = none

/-- The world with the program `id` pinned. -/
def World.pinLoaded (w : World) (id : ProgramID) : World := w.addProg (.prog id) ⟨id, none⟩

theorem pinLoaded_eq_ok {f : Err → Err} (h : mapErr f (prim e (.pinProg (.prog id)) fun w =>
    if (w.prog? (.prog id)).isSome then none else some ((), w.addProg (.prog id) ⟨id, none⟩)) w =
      .ok () w') : Pinnable e id w ∧ w' = w.pinLoaded id := by
  obtain ⟨hf, h⟩ := prim_eq_ok.1 (mapErr_eq_ok.1 h)
  obtain ⟨hnone, ⟨⟩⟩ := Option.ite_none_left_eq_some.1 h
  exact ⟨⟨hf, by simpa using hnone⟩, rfl⟩

theorem kernelLoad_eq_ok {out : LoadOutput} (h : kernelLoad e i spec w = .ok out w') :
    e.fails (.progInfo (e.loadID i)) = false ∧
      ∃ w1, loadCollection e i spec w = .ok () w1 ∧ Pinnable e (e.loadID i) w1 ∧
        pinProgramMaps e i (e.loadID i) spec (w1.pinLoaded (e.loadID i)) = .ok () w' := by
  obtain ⟨u, w1, hc, h1⟩ := bind_eq_ok.1 h
  obtain ⟨u, w2, hp, h2⟩ := bind_eq_ok.1 h1
  obtain ⟨u, w3, hm, h3⟩ := bind_eq_ok.1 h2
  obtain ⟨u, w4, hi, h4⟩ := bind_eq_ok.1 h3
  obtain ⟨hpin, rfl⟩ := pinLoaded_eq_ok hp
  obtain ⟨hinfo, hi⟩ := prim_eq_ok.1 (mapErr_eq_ok.1 (onErr_eq_ok.1 hi))
  cases hi
  cases h4
  exact ⟨hinfo, w1, hc, hpin, hm⟩

/-- The kernel adapter fails before the program is pinned, in pinning its maps, or in reading back
its info. -/
theorem kernelLoad_eq_err {err : Err} (h : kernelLoad e i spec w = .err err w') :
    (∃ er, loadCollection e i spec w = .err er w') ∨
    ∃ w1, loadCollection e i spec w = .ok () w1 ∧
      ((¬ Pinnable e (e.loadID i) w1 ∧ w' = w1.fail (.pinProg (.prog (e.loadID i)))) ∨
      (Pinnable e (e.loadID i) w1 ∧
        ((∃ er, pinProgramMaps e i (e.loadID i) spec (w1.pinLoaded (e.loadID i)) = .err er w') ∨
        ∃ w2, e.fails (.progInfo (e.loadID i)) = true ∧
          pinProgramMaps e i (e.loadID i) spec (w1.pinLoaded (e.loadID i)) = .ok () w2 ∧
          w' = (abandonLoad e (e.loadID i) spec (w2.fail (.progInfo (e.loadID i)))).state))) := by
  rcases bind_eq_err.1 h with hc | ⟨u, w1, hc, h1⟩
  · exact .inl ⟨err, hc⟩
  refine .inr ⟨w1, hc, ?_⟩
  rcases bind_eq_err.1 h1 with hp | ⟨u, w2, hp, h2⟩
  · obtain ⟨er, hp, -⟩ := mapErr_eq_err.1 hp
    obtain ⟨hwhy, -, hw'⟩ := prim_eq_err.1 hp
    refine .inl ⟨fun hpin => ?_, hw'⟩
    rw [hpin.1, hpin.2] at hwhy
    simp at hwhy
  · obtain ⟨hpin, rfl⟩ := pinLoaded_eq_ok hp
    refine .inr ⟨hpin, ?_⟩
    rcases bind_eq_err.1 h2 with hm | ⟨u, w3, hm, h3⟩
    · exact .inl ⟨err, hm⟩
    · rcases bind_eq_err.1 h3 with hi | ⟨u, w4, -, h4⟩
      · obtain ⟨w4, hmap, rfl⟩ := onErr_eq_err.1 hi
        obtain ⟨er, hprim, -⟩ := mapErr_eq_err.1 hmap
        obtain ⟨hwhy, -, rfl⟩ := prim_eq_err.1 hprim
        exact .inr ⟨w3, hwhy.resolve_right (by simp), hm, rfl⟩
      · cases h4

/-! ## The plan of one program -/

/-- The undo actions of the kernel load. -/
def undoLoad (e : Env) (out : LoadOutput) : M Unit := do
  ignore (removePin e out.pinPath)
  ignore (removeProgramMapsPins e out.mapsDir)

/-- The plan of one program: load it, publish its bytecode, and unpin it if that fails. -/
theorem loadOne_eq (e : Env) (i : Nat) (spec : LoadSpec) :
    loadOne e i spec = (do
      let out ← mapErr (.wrap s!"load program {spec.programName}") (kernelLoad e i spec)
      onErr (publishBytecode e out.programID) (undoLoad e out)
      pure (buildProgramRecord spec out, out.sharedMapNames)) := by
  funext w
  unfold loadOne loadPlan
  rw [runPlan_cons _ _ (by simp)]
  cases hk : kernelLoad e i spec w with
  | err er w1 => simp only [bind_apply, mapErr, hk]
  | ok out w1 =>
    simp only [bind_apply, mapErr, hk, pure_apply, onErr]
    rw [runPlan_single _ (by simp)]
    simp only [Option.toList_some, forEach_cons, bind_apply]
    cases hp : publishBytecode e out.programID w1 with
    | ok u w2 => rfl
    | err er w2 => rfl

/-- What the kernel adapter returns for the `i`-th program. -/
def loadOutput (e : Env) (i : Nat) (spec : LoadSpec) : LoadOutput :=
  { programID := e.loadID i, pinPath := .prog (e.loadID i)
    mapsDir := .mapDir (spec.mapSetID (e.loadID i)), inferredType := spec.programType
    sharedMapNames := spec.pinByNameMaps }

theorem kernelLoad_output {out : LoadOutput} (h : kernelLoad e i spec w = .ok out w') :
    out = loadOutput e i spec := by
  obtain ⟨_, _, -, h⟩ := bind_eq_ok.1 h
  obtain ⟨_, _, -, h⟩ := bind_eq_ok.1 h
  obtain ⟨_, _, -, h⟩ := bind_eq_ok.1 h
  obtain ⟨_, _, -, h⟩ := bind_eq_ok.1 h
  cases h
  rfl

/-- The record the batch keeps of its `i`-th program. -/
def loadedRecord (e : Env) (i : Nat) (spec : LoadSpec) : ProgramRecord :=
  buildProgramRecord spec (loadOutput e i spec)

theorem loadOne_eq_ok {item : ProgramRecord × List String} :
    loadOne e i spec w = .ok item w' ↔
      item = (loadedRecord e i spec, spec.pinByNameMaps) ∧
        ∃ w1, kernelLoad e i spec w = .ok (loadOutput e i spec) w1 ∧
          publishBytecode e (e.loadID i) w1 = .ok () w' := by
  rw [loadOne_eq]
  constructor
  · intro h
    obtain ⟨out, w1, hk, h⟩ := bind_eq_ok.1 h
    obtain ⟨u, w2, hp, h⟩ := bind_eq_ok.1 h
    rw [mapErr_eq_ok] at hk
    rw [onErr_eq_ok] at hp
    obtain rfl := kernelLoad_output hk
    cases h
    exact ⟨rfl, w1, hk, hp⟩
  · rintro ⟨rfl, w1, hk, hp⟩
    exact bind_eq_ok.2 ⟨_, w1, mapErr_eq_ok.2 hk, bind_eq_ok.2 ⟨(), w', onErr_eq_ok.2 hp, rfl⟩⟩

/-- A program that could not be loaded failed in the kernel adapter, or in publishing its bytecode
and was then unpinned. -/
theorem loadOne_eq_err {err : Err} (h : loadOne e i spec w = .err err w') :
    (∃ err', kernelLoad e i spec w = .err err' w') ∨
      ∃ w1 w2, kernelLoad e i spec w = .ok (loadOutput e i spec) w1 ∧
        publishBytecode e (e.loadID i) w1 = .err err w2 ∧
        w' = (undoLoad e (loadOutput e i spec) w2).state := by
  rw [loadOne_eq] at h
  rcases bind_eq_err.1 h with h | ⟨out, w1, hk, h⟩
  · obtain ⟨err', h, -⟩ := mapErr_eq_err.1 h
    exact .inl ⟨err', h⟩
  · rw [mapErr_eq_ok] at hk
    obtain rfl := kernelLoad_output hk
    rcases bind_eq_err.1 h with h | ⟨u, w2, -, h⟩
    · obtain ⟨w2, hp, rfl⟩ := onErr_eq_err.1 h
      exact .inr ⟨w1, w2, hk, hp, rfl⟩
    · cases h

/-! ## The batch -/

/-- The specs load one after the other, from the `i`-th of the batch on. -/
inductive LoadedAll (e : Env) : Nat → List LoadSpec → World → List (ProgramRecord × List String) →
    World → Prop
  | nil (i : Nat) (w : World) : LoadedAll e i [] w [] w
  | cons {i : Nat} {spec : LoadSpec} {specs : List LoadSpec} {w w₁ w' : World} {item items}
      (head : loadOne e i spec w = .ok item w₁) (tail : LoadedAll e (i + 1) specs w₁ items w') :
      LoadedAll e i (spec :: specs) w (item :: items) w'

variable {specs : List LoadSpec} {items its : List (ProgramRecord × List String)}

theorem loadAll_eq_ok (h : loadAll e i specs items w = .ok its w') :
    ∃ new, its = items ++ new ∧ LoadedAll e i specs w new w' := by
  induction specs generalizing i items w with
  | nil =>
    obtain ⟨rfl, rfl⟩ := Outcome.ok.inj h
    exact ⟨[], by simp, .nil i _⟩
  | cons spec specs ih =>
    obtain ⟨item, w1, h1, h⟩ := bind_eq_ok.1 h
    obtain ⟨new, rfl, hnew⟩ := ih h
    exact ⟨item :: new, by simp, .cons (onErr_eq_ok.1 h1) hnew⟩

/-- A batch that stopped in its loop loaded the programs before the one that failed, and unloaded
them again. -/
theorem loadAll_eq_err {err : Err} (h : loadAll e i specs items w = .err err w') :
    ∃ pre spec post new w1 w2, specs = pre ++ spec :: post ∧ LoadedAll e i pre w new w1 ∧
      loadOne e (i + pre.length) spec w1 = .err err w2 ∧
      w' = (cleanupLoaded e ((items ++ new).map (·.1)) w2).state := by
  induction specs generalizing i items w with
  | nil => cases h
  | cons spec specs ih =>
    rcases bind_eq_err.1 h with h | ⟨item, w1, h1, h⟩
    · obtain ⟨w2, h2, rfl⟩ := onErr_eq_err.1 h
      exact ⟨[], spec, specs, [], w, w2, rfl, .nil i w, h2, by simp⟩
    · obtain ⟨pre, sp, post, new, w2, w3, rfl, hpre, hsp, rfl⟩ := ih h
      refine ⟨spec :: pre, sp, post, item :: new, w2, w3, rfl,
        .cons (onErr_eq_ok.1 h1) hpre, ?_, by simp⟩
      rw [length_cons, ← Nat.add_assoc, Nat.add_right_comm]
      exact hsp

theorem LoadedAll.append {specs' : List LoadSpec} {w1 : World} (h : LoadedAll e i specs w items w1)
    (h' : LoadedAll e (i + specs.length) specs' w1 its w') :
    LoadedAll e i (specs ++ specs') w (items ++ its) w' := by
  induction h with
  | nil i w => simpa using h'
  | cons head tail ih =>
    refine .cons head (ih ?_)
    rw [length_cons, ← Nat.add_assoc, Nat.add_right_comm] at h'
    exact h'

theorem LoadedAll.of_append {pre post : List LoadSpec}
    (h : LoadedAll e i (pre ++ post) w items w') :
    ∃ its its' w1, items = its ++ its' ∧ LoadedAll e i pre w its w1 ∧
      LoadedAll e (i + pre.length) post w1 its' w' := by
  induction pre generalizing i w items with
  | nil => exact ⟨[], items, w, rfl, .nil i w, h⟩
  | cons sp pre ih =>
    cases h with
    | cons head tail =>
      obtain ⟨its, its', w1, rfl, hpre, hpost⟩ := ih tail
      have hlen : i + 1 + pre.length = i + (sp :: pre).length := by
        rw [length_cons]
        omega
      rw [hlen] at hpost
      exact ⟨_ :: its, its', w1, rfl, .cons head hpre, hpost⟩

theorem LoadedAll.split {pre post : List LoadSpec}
    (h : LoadedAll e i (pre ++ spec :: post) w items w') :
    ∃ its its' w1 w2,
      items = its ++ (loadedRecord e (i + pre.length) spec, spec.pinByNameMaps) :: its' ∧
      LoadedAll e i pre w its w1 ∧
      loadOne e (i + pre.length) spec w1 =
        .ok (loadedRecord e (i + pre.length) spec, spec.pinByNameMaps) w2 ∧
      LoadedAll e (i + pre.length + 1) post w2 its' w' := by
  obtain ⟨its, its', w1, rfl, hpre, hpost⟩ := h.of_append
  cases hpost with
  | cons head tail =>
    obtain ⟨rfl, -⟩ := loadOne_eq_ok.1 head
    exact ⟨its, _, w1, _, rfl, hpre, head, tail⟩

theorem LoadedAll.loadAll_eq (h : LoadedAll e i specs w items w') :
    loadAll e i specs its w = .ok (its ++ items) w' := by
  induction h generalizing its with
  | nil i w => simp [loadAll]
  | cons head tail ih =>
    unfold loadAll
    rw [bind_of_ok (onErr_eq_ok.2 head), ih]
    simp

theorem LoadedAll.loadAll_append {post : List LoadSpec} (h : LoadedAll e i specs w items w') :
    loadAll e i (specs ++ post) its w = loadAll e (i + specs.length) post (its ++ items) w' := by
  induction h generalizing its with
  | nil i w => simp
  | cons head tail ih =>
    rw [cons_append, loadAll, bind_of_ok (onErr_eq_ok.2 head), ih, length_cons,
      append_assoc, Nat.add_right_comm, Nat.add_assoc]
    rfl

theorem LoadedAll.items_eq (h : LoadedAll e i specs w items w') :
    items = specs.mapIdx fun j spec => (loadedRecord e (i + j) spec, spec.pinByNameMaps) := by
  induction h with
  | nil i w => rfl
  | cons head tail ih =>
    rw [mapIdx_cons, (loadOne_eq_ok.1 head).1, ih]
    simp [Nat.add_assoc, Nat.add_comm 1]

theorem loadBody_eq_ok {records : List ProgramRecord} (h : loadBody e specs w = .ok records w') :
    ∃ items w1, LoadedAll e 0 specs w items w1 ∧ records = items.map (·.1) ∧
      runInTransaction e (commitBatch e items) w1 = .ok () w' := by
  obtain ⟨items, w1, h1, h⟩ := bind_eq_ok.1 h
  obtain ⟨new, hits, hnew⟩ := loadAll_eq_ok h1
  subst hits
  obtain ⟨u, w2, h2, h⟩ := bind_eq_ok.1 h
  cases h
  exact ⟨_, w1, hnew, rfl, onErr_eq_ok.1 h2⟩

/-- A batch that failed after a part of it loaded stopped at a later program, or loaded them all and
could not commit them. -/
theorem loadBody_err_after {pre post : List LoadSpec} {err : Err} {wb : World}
    (hpre : LoadedAll e 0 pre w its wb) (h : loadBody e (pre ++ post) w = .err err w') :
    (∃ mid spec rest new w1 w2, post = mid ++ spec :: rest ∧ LoadedAll e pre.length mid wb new w1 ∧
      loadOne e (pre.length + mid.length) spec w1 = .err err w2 ∧
      w' = (cleanupLoaded e ((its ++ new).map (·.1)) w2).state) ∨
    ∃ new w1 w2, LoadedAll e pre.length post wb new w1 ∧
      runInTransaction e (commitBatch e (its ++ new)) w1 = .err err w2 ∧
      w' = (cleanupLoaded e ((its ++ new).map (·.1)) w2).state := by
  have hrest := @LoadedAll.loadAll_append _ _ _ _ _ _ [] post hpre
  rw [Nat.zero_add, nil_append] at hrest
  rcases bind_eq_err.1 h with h | ⟨items, w1, h1, h⟩
  · rw [hrest] at h
    exact .inl (loadAll_eq_err h)
  · rw [hrest] at h1
    obtain ⟨new, rfl, hnew⟩ := loadAll_eq_ok h1
    rcases bind_eq_err.1 h with h | ⟨u, w2, -, h⟩
    · obtain ⟨w2, h2, rfl⟩ := onErr_eq_err.1 h
      exact .inr ⟨new, w1, w2, hnew, h2, rfl⟩
    · cases h

/-- A batch that failed stopped at a program, or loaded them all and could not commit them. -/
theorem loadBody_eq_err {err : Err} (h : loadBody e specs w = .err err w') :
    (∃ pre spec post items w1 w2, specs = pre ++ spec :: post ∧ LoadedAll e 0 pre w items w1 ∧
      loadOne e pre.length spec w1 = .err err w2 ∧
      w' = (cleanupLoaded e (items.map (·.1)) w2).state) ∨
    ∃ items w1 w2, LoadedAll e 0 specs w items w1 ∧
      runInTransaction e (commitBatch e items) w1 = .err err w2 ∧
      w' = (cleanupLoaded e (items.map (·.1)) w2).state := by
  have := loadBody_err_after (.nil 0 w) h
  simpa only [length_nil, Nat.zero_add, nil_append] using this

theorem loadAll_of_stop {pre post : List LoadSpec} {err : Err} {w1 w2 : World}
    (h : LoadedAll e i pre w items w1) (hs : loadOne e (i + pre.length) spec w1 = .err err w2) :
    loadAll e i (pre ++ spec :: post) its w =
      .err err (cleanupLoaded e ((its ++ items).map (·.1)) w2).state := by
  induction h generalizing its with
  | nil i w =>
    rw [append_nil]
    exact bind_of_err (onErr_eq_err.2 ⟨w2, hs, rfl⟩)
  | cons head tail ih =>
    rw [length_cons, ← Nat.add_assoc, Nat.add_right_comm] at hs
    rw [cons_append, loadAll, bind_of_ok (onErr_eq_ok.2 head), ih hs, append_assoc]
    rfl

theorem loadBody_of_stop {pre post : List LoadSpec} {err : Err} {w1 w2 : World}
    (h : LoadedAll e 0 pre w items w1) (hs : loadOne e pre.length spec w1 = .err err w2) :
    loadBody e (pre ++ spec :: post) w = .err err (cleanupLoaded e (items.map (·.1)) w2).state := by
  have := @loadAll_of_stop _ _ _ _ _ [] _ post _ _ _ h (by rwa [Nat.zero_add])
  exact bind_of_err this

/-! ## The transaction -/

/-- Only the store and the log differ. -/
def OnStore (w w' : World) : Prop := w' = { w with store := w'.store, failed := w'.failed }

instance : Std.Refl OnStore := ⟨fun _ => rfl⟩

instance : IsTrans World OnStore := ⟨fun a b c h h' => by
  unfold OnStore at *
  rw [h', h]⟩

theorem onStore_fail (w : World) (c : Call) : OnStore w (w.fail c) := rfl

theorem onStore_saveProgram (record : ProgramRecord) : Keeps OnStore (saveProgram e record) :=
  keeps_write onStore_fail fun _ _ _ => rfl

theorem onStore_saveSharedMapPins (names : List String) :
    Keeps OnStore (saveSharedMapPins e id names) :=
  keeps_write onStore_fail fun _ _ _ => rfl

theorem onStore_commitItem (record : ProgramRecord) (names : List String) :
    Keeps OnStore (commitItem e record names) := by
  refine (keeps_query onStore_fail).attempt.bind fun found => ?_
  cases found with
  | ok r => exact .fail _
  | error err =>
    refine .ite ?_ (.fail _)
    exact (onStore_saveProgram record).mapErr.bind fun _ =>
      .ite (.pure ()) (onStore_saveSharedMapPins names).mapErr

theorem onStore_commitBatch (items : List (ProgramRecord × List String)) :
    Keeps OnStore (commitBatch e items) :=
  (Keeps.forEach fun it _ => onStore_commitItem it.1 it.2).bind fun _ =>
    (keeps_query onStore_fail).mapErr.bind fun _ => .pure _

theorem runInTransaction_eq_err {body : M Unit} {err : Err} (hb : Keeps OnStore body)
    (h : runInTransaction e body w = .err err w') : w' = { w with failed := w'.failed } := by
  have hc : Keeps OnStore (do body; prim e .commit fun w => some ((), w) : M Unit) :=
    hb.bind fun _ => keeps_prim onStore_fail fun _ => .some rfl
  unfold runInTransaction at h
  split at h
  · cases h
  · rename_i er w1 h1
    obtain ⟨-, rfl⟩ := Outcome.err.inj h
    rw [hc.err h1]

theorem runInTransaction_eq_ok {body : M Unit} (h : runInTransaction e body w = .ok () w') :
    body w = .ok () w' := by
  unfold runInTransaction at h
  split at h
  · rename_i w1 h1
    obtain ⟨u, w2, hb, hc⟩ := bind_eq_ok.1 h1
    obtain ⟨-, hc⟩ := prim_eq_ok.1 hc
    cases hc
    cases h
    exact hb
  · cases h

/-- The row of a loaded program. -/
def ProgramRecord.row (record : ProgramRecord) : ProgramRow :=
  { programID := record.programID, programName := record.name
    programType := record.programType, pinPath := record.pinPath, mapSetID := record.mapSetID
    attachFunc := record.attachFunc }

/-- The store with the rows of a program that was loaded. -/
def Store.addLoaded (s : Store) (record : ProgramRecord) (names : List String) : Store :=
  { s with
    programs := s.programs ++ [record.row]
    mapSets := if record.mapOwnerID.isNone then s.mapSets ++ [⟨record.programID, record.mapsDir⟩]
      else s.mapSets
    sharedMapPins := names.foldl (Store.insertSharedMapPin record.programID) s.sharedMapPins }

theorem upsertProgram_eq_ok {row : ProgramRow}
    (hid : ∀ p ∈ s.programs, p.programID ≠ row.programID) (h : s.upsertProgram row = .ok s') :
    s' = { s with programs := s.programs ++ [row] } ∧ s.mapSetExists row.mapSetID = true := by
  have hany : s.programs.any (fun p => decide (p.programID = row.programID)) = false := by
    simpa using hid
  unfold upsertProgram at h
  split at h
  · rename_i hset
    rw [hany] at h
    cases h
    exact ⟨rfl, hset⟩
  · cases h

theorem insertSelfOwnedMapSet_eq_ok {d : Dir} (h : s.insertSelfOwnedMapSet id d = .ok s') :
    s.mapSetExists id = false ∧ s' = { s with mapSets := s.mapSets ++ [⟨id, d⟩] } := by
  unfold insertSelfOwnedMapSet at h
  split at h
  · cases h
  · rename_i hset
    cases h
    exact ⟨by simpa using hset, rfl⟩

/-- Saving a program records its map set if the program is new and owns its maps, and upserts its
row. -/
theorem save_steps (h : s.save record = .ok s') : ∃ s1, s1.upsertProgram record.row = .ok s' ∧
    (record.mapOwnerID = none ∧ s.mapSetExists record.programID = false ∧
        s1 = { s with mapSets := s.mapSets ++ [⟨record.programID, record.mapsDir⟩] } ∨
      s1 = s ∧ (record.mapOwnerID = none → ∃ p ∈ s.programs, p.programID = record.programID)) := by
  unfold save at h
  split at h
  · rename_i hc
    obtain ⟨s1, hi, h⟩ := except_bind_eq_ok.1 h
    obtain ⟨hset, rfl⟩ := insertSelfOwnedMapSet_eq_ok hi
    exact ⟨_, h, .inl ⟨by simp_all, hset, rfl⟩⟩
  · rename_i hc
    exact ⟨s, h, .inr ⟨rfl, fun ho => by simpa [ho] using hc⟩⟩

theorem save_eq_ok
    (hid : ∀ p ∈ s.programs, p.programID ≠ record.programID) (h : s.save record = .ok s') :
    s' = s.addLoaded record [] ∧
      (record.mapOwnerID = none → s.mapSetExists record.programID = false) ∧
      s'.mapSetExists record.mapSetID = true := by
  obtain ⟨s1, hup, ⟨ho, hself, rfl⟩ | ⟨rfl, hrow⟩⟩ := save_steps h
  · obtain ⟨rfl, hset⟩ := upsertProgram_eq_ok hid hup
    exact ⟨by simp [addLoaded, ho], fun _ => hself, hset⟩
  · have ho : record.mapOwnerID ≠ none := fun ho => by
      obtain ⟨p, hp, heq⟩ := hrow ho
      exact hid p hp heq
    obtain ⟨rfl, hset⟩ := upsertProgram_eq_ok hid hup
    exact ⟨by simp [addLoaded, ho], fun hn => absurd hn ho, hset⟩

theorem saveProgram_eq_ok (h : saveProgram e record w = .ok () w') :
    ∃ s', w.store.save record = .ok s' ∧ w' = { w with store := s' } := by
  obtain ⟨-, s', hs, ⟨⟩⟩ := write_eq_ok.1 h
  exact ⟨s', hs, rfl⟩

theorem saveSharedMapPins_eq_ok (h : saveSharedMapPins e id names w = .ok () w') :
    w' = { w with store := { w.store with
      sharedMapPins := names.foldl (insertSharedMapPin id) w.store.sharedMapPins } } := by
  obtain ⟨-, h⟩ := primErr_eq_ok.1 h
  unfold Store.saveSharedMapPins at h
  split at h
  · cases h
    rfl
  · cases h

/-- The upsert of a row adds it or puts it in the place of a row with its id. -/
theorem upsertProgram_rows {row : ProgramRow} (h : s.upsertProgram row = .ok s') :
    s'.sharedMapPins = s.sharedMapPins ∧ s'.mapSets = s.mapSets ∧
      ∀ p ∈ s'.programs, p ∈ s.programs ∨ p = row := by
  unfold upsertProgram at h
  split at h
  · cases h
    refine ⟨rfl, rfl, fun p hp => ?_⟩
    split at hp
    · obtain ⟨q, hq, rfl⟩ := mem_map.1 hp
      split
      · exact .inr rfl
      · exact .inl hq
    · exact (mem_append.1 hp).imp_right mem_singleton.1
  · cases h

/-- Saving a program adds at most its map set and its row. -/
theorem save_rows (h : s.save record = .ok s') :
    s'.sharedMapPins = s.sharedMapPins ∧
      (s.mapSets ⊆ s'.mapSets ∧ s'.mapSets ⊆ s.mapSets ++ [⟨record.programID, record.mapsDir⟩]) ∧
      ∀ p ∈ s'.programs, p ∈ s.programs ∨ p = record.row := by
  obtain ⟨s1, hup, hs1⟩ := save_steps h
  obtain ⟨hrefs, hsets, hrows⟩ := upsertProgram_rows hup
  rw [hrefs, hsets]
  rcases hs1 with ⟨-, -, rfl⟩ | ⟨rfl, -⟩
  · exact ⟨rfl, ⟨subset_append_left _ _, List.Subset.refl _⟩, hrows⟩
  · exact ⟨rfl, ⟨List.Subset.refl _, subset_append_left _ _⟩, hrows⟩

theorem commitItem_saved (h : commitItem e record names w = .ok () w') :
    ∃ s', w.store.save record = .ok s' ∧ w' = { w with store := { s' with
      sharedMapPins := names.foldl (insertSharedMapPin record.programID) s'.sharedMapPins } } := by
  obtain ⟨found, w1, hg, hrest⟩ := bind_eq_ok.1 h
  rcases attempt_eq_ok.1 hg with ⟨r, rfl, -⟩ | ⟨err, rfl, hq⟩
  · cases hrest
  · rcases query_eq_err hq with ⟨-, hn⟩ | ⟨rfl, -, hn⟩
    · simp only [hn, Bool.false_eq_true, if_false] at hrest
      cases hrest
    · simp only [hn, if_true] at hrest
      obtain ⟨u, w2, hp, hshare⟩ := bind_eq_ok.1 hrest
      obtain ⟨s', hs, rfl⟩ := saveProgram_eq_ok (mapErr_eq_ok.1 hp)
      cases names with
      | nil =>
        cases hshare
        exact ⟨s', hs, rfl⟩
      | cons name names => exact ⟨s', hs, saveSharedMapPins_eq_ok (mapErr_eq_ok.1 hshare)⟩

theorem commitItem_eq_ok (hid : ∀ p ∈ w.store.programs, p.programID ≠ record.programID)
    (h : commitItem e record names w = .ok () w') :
    w' = { w with store := w.store.addLoaded record names } ∧
      (record.mapOwnerID = none → w.store.mapSetExists record.programID = false) ∧
      w'.store.mapSetExists record.mapSetID = true := by
  obtain ⟨s', hs, rfl⟩ := commitItem_saved h
  obtain ⟨rfl, hself, hset⟩ := save_eq_ok hid hs
  exact ⟨rfl, hself, hset⟩

/-- The programs of a batch have rows of their own once it is committed. -/
def Store.addAll (s : Store) (items : List (ProgramRecord × List String)) : Store :=
  items.foldl (fun s it => s.addLoaded it.1 it.2) s

/-- What committing a batch needs: none of its programs is recorded, and no two have one id. -/
structure Unrecorded (items : List (ProgramRecord × List String)) (s : Store) : Prop where
  nodup : (items.map (·.1.programID)).Nodup
  fresh : ∀ it ∈ items, ∀ p ∈ s.programs, p.programID ≠ it.1.programID

theorem Unrecorded.tail {it : ProgramRecord × List String}
    (h : Unrecorded (it :: items) s) : Unrecorded items (s.addLoaded it.1 it.2) := by
  obtain ⟨hnot, hnodup⟩ := nodup_cons.1 h.nodup
  refine ⟨hnodup, fun it' hit' p hp => ?_⟩
  rcases mem_append.1 hp with hp | hp
  · exact h.fresh it' (mem_cons_of_mem _ hit') p hp
  · obtain rfl := mem_singleton.1 hp
    exact fun heq => hnot (mem_map.2 ⟨it', hit', heq.symm⟩)

theorem commitItems_eq_ok (hu : Unrecorded items w.store)
    (h : forEach (fun it => commitItem e it.1 it.2) items w = .ok () w') :
    w' = { w with store := w.store.addAll items } := by
  induction items generalizing w with
  | nil =>
    cases h
    rfl
  | cons it items ih =>
    obtain ⟨u, w1, h1, h⟩ := bind_eq_ok.1 h
    obtain ⟨rfl, -, -⟩ := commitItem_eq_ok (hu.fresh it (mem_cons_self ..)) h1
    exact ih hu.tail h

theorem commitBatch_items (h : runInTransaction e (commitBatch e items) w = .ok () w') :
    forEach (fun it => commitItem e it.1 it.2) items w = .ok () w' := by
  obtain ⟨u, w1, h1, hlist⟩ := bind_eq_ok.1 (runInTransaction_eq_ok h)
  obtain ⟨records, w2, h2, hend⟩ := bind_eq_ok.1 hlist
  obtain ⟨-, -, rfl⟩ := query_eq_ok.1 (mapErr_eq_ok.1 h2)
  cases hend
  exact h1

theorem commitBatch_eq_ok (hu : Unrecorded items w.store)
    (h : runInTransaction e (commitBatch e items) w = .ok () w') :
    w' = { w with store := w.store.addAll items } := commitItems_eq_ok hu (commitBatch_items h)

end Bpfman
