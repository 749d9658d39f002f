import Bpfman.Delete

/-!
# Load

`manager/load.go`, with `platform/ebpf/load.go` and the statements of
`platform/store/sqlite/programs.go` it runs: reap the records of dead programs, load and pin the
programs of the batch one by one, commit their rows in one transaction. A failure unloads what the
batch had loaded.

The source and its object are resolved before anything changes, so a batch starts here from its
load specs. Without an explicit owner there is nothing to validate, so the load that takes the
writer lock and the one that does not are one definition.
-/

namespace Bpfman

open Fallible Proc

/-! ## Specs and outputs -/

/-- A map the object declares, internal maps left out. -/
structure MapSpec where
  name : String
  pinByName : Bool
  deriving DecidableEq, Repr

/-- `bpfman.LoadSpec`, with the maps of the object it names in the order they are visited. -/
structure LoadSpec where
  programName : String
  programType : ProgramType
  /-- Zero when the program is to own its maps. -/
  mapOwnerID : ProgramID
  maps : List MapSpec
  nodup : (maps.map (·.name)).Nodup
  /-- Empty unless the program is of a kind that is attached to a function. -/
  attachFunc : String := ""
  deriving DecidableEq

structure LoadOutput where
  programID : ProgramID
  pinPath : ProgPinPath
  mapsDir : Dir
  inferredType : ProgramType
  sharedMapNames : List String
  deriving DecidableEq, Repr

namespace LoadSpec

def mapNames (spec : LoadSpec) : List String := spec.maps.map (·.name)

/-- The names of the maps that declare `LIBBPF_PIN_BY_NAME`. -/
def pinByNameMaps (spec : LoadSpec) : List String :=
  (spec.maps.filter (·.pinByName)).map (·.name)

/-- The map set the program is to use once it has the id `id`. -/
def mapSetID (spec : LoadSpec) (id : ProgramID) : ProgramID :=
  if spec.mapOwnerID = 0 then id else spec.mapOwnerID

end LoadSpec

/-! ## The kernel adapter -/

variable (e : Env)

def loadPinnedMap (p : MapPinPath) : M Unit :=
  prim e (.loadPinnedMap p) fun w => if (w.map? p).isSome then some ((), w) else none

def pinMap (p : MapPinPath) (x : World → MapID) : M Unit :=
  prim e (.pinMap p) fun w => if (w.map? p).isSome then none else some ((), w.addMap p (x w))

/-- Share or create one `PinByName` map. If the shared pin is there but cannot be opened, the new
map cannot be pinned in its place and the second attempt to open it fails too. -/
def shareMap (i : Nat) (name : String) : M Unit := do
  if (← read fun w => (w.map? (.shared name)).isSome) then
    mapErr (.wrap s!"pin shared map {name}") (loadPinnedMap e (.shared name))
  else do
    mapErr (.wrap s!"create shared map {name}") (prim e (.newMap name) fun w => some ((), w))
    mapErr (.wrap s!"pin shared map {name}") (pinMap e (.shared name) fun _ => e.mapID i name)

/-- The maps the collection is loaded with: those of the owner, or the shared ones. -/
def mapReplacements (i : Nat) (spec : LoadSpec) : M Unit :=
  if spec.mapOwnerID ≠ 0 then
    forEach
      (fun name => mapErr (.wrap s!"load shared map {name} from owner {spec.mapOwnerID}")
        (loadPinnedMap e (.map spec.mapOwnerID name)))
      spec.mapNames
  else if spec.pinByNameMaps.isEmpty then pure ()
  else do
    mapErr (.wrap "failed to create shared map pin directory") (mkdirAll e .shared)
    forEach (shareMap e i) spec.pinByNameMaps

/-- `cleanup`: unlink the pins made so far, the maps latest first and then the program. -/
def unpinLoaded (id : ProgramID) (pinned : List String) : M Unit := do
  forEach (fun name => ignore (removeMapPin e (.map id name))) pinned.reverse
  ignore (removePin e (.prog id))

/-- The cleanup of a program that owns its map directory. -/
def discardLoaded (id : ProgramID) (pinned : List String) : M Unit := do
  unpinLoaded e id pinned
  ignore (removeAll e (.mapDir id))

def loadedMap (i : Nat) (m : MapSpec) (w : World) : MapID :=
  if m.pinByName then (w.map? (.shared m.name)).getD (e.mapID i m.name) else e.mapID i m.name

/-- Pin the maps one by one; `pinned` are those pinned before. -/
def pinMaps (e : Env) (i : Nat) (id : ProgramID) : List String → List MapSpec → M Unit
  | _, [] => pure ()
  | pinned, m :: ms => do
    onErr
      (mapErr (.wrap s!"failed to pin map {m.name}") (pinMap e (.map id m.name) (loadedMap e i m)))
      (discardLoaded e id pinned)
    pinMaps e i id (pinned ++ [m.name]) ms

/-- The map directory of a program that owns its maps, with the maps pinned in it. -/
def pinOwnMaps (i : Nat) (id : ProgramID) (spec : LoadSpec) : M Unit := do
  onErr
    (mapErr (.wrap "failed to create maps directory") (mkdirAll e (.mapDir id)))
    (unpinLoaded e id [])
  pinMaps e i id [] spec.maps

/-- A program with an explicit owner uses the owner's directory and pins no maps. -/
def pinProgramMaps (i : Nat) (id : ProgramID) (spec : LoadSpec) : M Unit :=
  if spec.mapOwnerID = 0 then pinOwnMaps e i id spec else pure ()

/-- The cleanup after the last step; the directory of an owner is left alone. -/
def abandonLoad (id : ProgramID) (spec : LoadSpec) : M Unit :=
  if spec.mapOwnerID = 0 then discardLoaded e id spec.mapNames else unpinLoaded e id []

/-- Read the object and load its collection, after which the program has its id. -/
def loadCollection (i : Nat) (spec : LoadSpec) : M Unit := do
  mapErr (.wrap "failed to load collection spec") (prim e (.loadSpec i) fun w => some ((), w))
  mapReplacements e i spec
  mapErr (.wrap "failed to load collection") (prim e (.newCollection i) fun w => some ((), w))

/-- `Load` of the kernel adapter, for the `i`-th spec of the batch. -/
def kernelLoad (i : Nat) (spec : LoadSpec) : M LoadOutput := do
  loadCollection e i spec
  let id := e.loadID i
  mapErr (.wrap "failed to pin program")
    (prim e (.pinProg (.prog id)) fun w =>
      if (w.prog? (.prog id)).isSome then none else some ((), w.addProg (.prog id) ⟨id, none⟩))
  pinProgramMaps e i id spec
  onErr
    (mapErr (.wrap "failed to get map IDs from kernel")
      (prim e (.progInfo id) fun w => some ((), w)))
    (abandonLoad e id spec)
  pure
    { programID := id, pinPath := .prog id, mapsDir := .mapDir (spec.mapSetID id)
      inferredType := spec.programType, sharedMapNames := spec.pinByNameMaps }

/-! ## The plan of one program -/

/-- `PublishBytecode`: a directory that is already there is an error. -/
def publishBytecode (id : ProgramID) : M Unit :=
  prim e (.publishBytecode id) fun w =>
    if id ∈ w.bytecode then none else some ((), { w with bytecode := insert id w.bytecode })

/-- `loadPlan`. The binding is the output of the kernel load. -/
def loadPlan (i : Nat) (spec : LoadSpec) : List (Node (Option LoadOutput)) :=
  [{ flavour := .produceNode
     exec := fun _ => do
       let out ← mapErr (.wrap s!"load program {spec.programName}") (kernelLoad e i spec)
       pure (some out)
     undo := fun b => b.toList.flatMap fun l =>
       [removePin e l.pinPath, removeProgramMapsPins e l.mapsDir] },
   { flavour := .doNode
     exec := fun b => do
       forEach (fun l => publishBytecode e l.programID) b.toList
       pure b
     undo := fun b => b.toList.map fun l => removeProgramBytecodeDir e l.programID }]

def buildProgramRecord (spec : LoadSpec) (out : LoadOutput) : ProgramRecord :=
  { programID := out.programID, name := spec.programName, programType := out.inferredType
    pinPath := out.pinPath, mapsDir := out.mapsDir
    mapOwnerID := if spec.mapOwnerID = 0 then none else some spec.mapOwnerID
    attachFunc := spec.attachFunc }

/-! ## The transaction -/

namespace Store

/-- `insertSelfOwnedMapSet`: insert only, so that a set that survived its owner is not taken
over. -/
def insertSelfOwnedMapSet (s : Store) (id : ProgramID) (mapsDir : Dir) : Except Err Store :=
  if s.mapSetExists id then .error (.wrap s!"create map set {id}" .mapSetIDReused)
  else .ok { s with mapSets := s.mapSets ++ [⟨id, mapsDir⟩] }

/-- The upsert of a program row; its map set has to be there. -/
def upsertProgram (s : Store) (row : ProgramRow) : Except Err Store :=
  if s.mapSetExists row.mapSetID then
    .ok { s with programs :=
      if s.programs.any (·.programID = row.programID) then
        s.programs.map fun p => if p.programID = row.programID then row else p
      else s.programs ++ [row] }
  else .error (.wrap "failed to insert program" (.msg "FOREIGN KEY constraint failed"))

def save (s : Store) (record : ProgramRecord) : Except Err Store := do
  let s ←
    if record.mapOwnerID.isNone && !s.programs.any (·.programID = record.programID) then
      s.insertSelfOwnedMapSet record.programID record.mapsDir
    else .ok s
  s.upsertProgram
    { programID := record.programID, programName := record.name
      programType := record.programType, pinPath := record.pinPath, mapSetID := record.mapSetID
      attachFunc := record.attachFunc }

/-- `INSERT OR IGNORE` of one reference. -/
def insertSharedMapPin (id : ProgramID) (rows : List SharedMapPinRow) (name : String) :
    List SharedMapPinRow :=
  if ⟨name, id⟩ ∈ rows then rows else rows ++ [⟨name, id⟩]

/-- `SaveSharedMapPins`; the program has to be there. -/
def saveSharedMapPins (s : Store) (id : ProgramID) (names : List String) : Except Err Store :=
  if s.programs.any (·.programID = id) then
    .ok { s with sharedMapPins := names.foldl (insertSharedMapPin id) s.sharedMapPins }
  else .error (.msg "FOREIGN KEY constraint failed")

end Store

/-- `store.Save`. -/
def saveProgram (record : ProgramRecord) : M Unit :=
  primErr e (.saveProgram record.programID) fun w =>
    (w.store.save record).map fun s => ((), { w with store := s })

def saveSharedMapPins (id : ProgramID) (names : List String) : M Unit :=
  primErr e (.saveSharedMapPins id) fun w =>
    (w.store.saveSharedMapPins id names).map fun s => ((), { w with store := s })

/-- `RunInTransaction`: begin and commit are one primitive; on an error the store is rolled back. -/
def runInTransaction (body : M Unit) : M Unit := fun w =>
  match (do body; prim e .commit fun w => some ((), w) : M Unit) w with
  | .ok () w' => .ok () w'
  | .err err w' => .err err { w' with store := w.store }

/-- The rows of one program of the batch. -/
def commitItem (record : ProgramRecord) (names : List String) : M Unit := do
  match ← attempt (getProgramFromStore e record.programID) with
  | .ok _ => fail (.msg s!"program {record.programID} already exists in database")
  | .error err =>
    if isNotFound err then do
      mapErr (.wrap s!"save program {record.programID}") (saveProgram e record)
      if names.isEmpty then pure ()
      else
        mapErr (.wrap s!"save shared map pins for program {record.programID}")
          (saveSharedMapPins e record.programID names)
    else fail (.wrap s!"check existing program {record.programID}" err)

/-- What the transaction of a batch does. The list of programs read at its end only decorates the
reply. -/
def commitBatch (items : List (ProgramRecord × List String)) : M Unit := do
  forEach (fun it => commitItem e it.1 it.2) items
  let _ ← mapErr (.wrap "list programs for map users") (listProgramsFromStore e)
  pure ()

/-! ## The batch -/

/-- `cleanupLoaded`: unload the programs of a batch that failed, latest first. -/
def cleanupLoaded (loaded : List ProgramRecord) : M Unit :=
  forEach (fun r => ignore (unload e r [] false)) loaded.reverse

/-- One round of the batch loop: the record of the program and the shared maps it references. -/
def loadOne (i : Nat) (spec : LoadSpec) : M (ProgramRecord × List String) := do
  match ← runPlan (loadPlan e i spec) none with
  | some out => pure (buildProgramRecord spec out, out.sharedMapNames)
  | none => fail (.msg "load output not bound")

/-- The batch loop from its `i`-th spec on; `items` are the programs loaded before. -/
def loadAll (e : Env) : Nat → List LoadSpec → List (ProgramRecord × List String) →
    M (List (ProgramRecord × List String))
  | _, [], items => pure items
  | i, spec :: specs, items => do
    let item ← onErr (loadOne e i spec) (cleanupLoaded e (items.map (·.1)))
    loadAll e (i + 1) specs (items ++ [item])

def loadBody (specs : List LoadSpec) : M (List ProgramRecord) := do
  let items ← loadAll e 0 specs []
  let loaded := items.map (·.1)
  onErr (runInTransaction e (commitBatch e items)) (cleanupLoaded e loaded)
  pure loaded

/-! ## The reaper -/

/-- One pass of `planReap` over the dead ids: `plan` are the programs removed so far and `deps` the
owners of the programs that remain, once for each of them. -/
def reapPass (owner : ProgramID → Option ProgramID) :
    List ProgramID → List ProgramID × List ProgramID → List ProgramID × List ProgramID
  | [], st => st
  | id :: ids, (plan, deps) =>
    if id ∈ plan ∨ id ∈ deps then reapPass owner ids (plan, deps)
    else reapPass owner ids (plan ++ [id], (owner id).elim deps deps.erase)

/-- Passes until one makes no progress; every other pass removes a dead program. -/
def reapPasses (owner : ProgramID → Option ProgramID) (dead : List ProgramID) :
    Nat → List ProgramID × List ProgramID → List ProgramID × List ProgramID
  | 0, st => st
  | fuel + 1, st =>
    let st' := reapPass owner dead st
    if st'.1 = st.1 then st else reapPasses owner dead fuel st'

def planReap (progs : List ProgramRecord) (live : ProgramID → Bool) : List ProgramID :=
  let dead := ((progs.map (·.programID)).filter (!live ·)).insertionSort (· ≤ ·)
  let owner := fun id => (progs.find? (·.programID = id)).bind (·.mapOwnerID)
  (reapPasses owner dead dead.length ([], progs.filterMap (·.mapOwnerID))).1

def executeReapDeadProgramRecord (id : ProgramID) : M Unit := do
  ignore (removeProgramMapsPins e (.mapDir id))
  ignore (cleanupSharedMapPins e id)
  match ← attempt (deleteProgramRecord e id) with
  | .ok () => ignore (removeProgramBytecodeDir e id)
  | .error _ => pure ()

def reapDeadProgramRecords : M Unit := do
  let progs ← mapErr (.wrap "list store programs") (listProgramsFromStore e)
  mapErr (.wrap "enumerate kernel programs") (prim e .kernelPrograms fun w => some ((), w))
  forEach (executeReapDeadProgramRecord e) (planReap progs e.live)

/-! ## Load -/

def validateExplicitMapOwners (specs : List LoadSpec) : M Unit :=
  forEach
    (fun spec =>
      if spec.mapOwnerID = 0 then pure ()
      else do
        let ok ← mapErr (.wrap s!"validate map_owner_id {spec.mapOwnerID}")
          (mapSetExists e spec.mapOwnerID)
        if ok then pure ()
        else fail (.wrap s!"map_owner_id {spec.mapOwnerID} does not exist" .mapOwnerNotFound))
    specs

def load (e : Env) (specs : List LoadSpec) : M (List ProgramRecord) :=
  if specs.isEmpty then fail (.msg "no programs specified: name every program to load as TYPE:NAME")
  else do
    validateExplicitMapOwners e specs
    ignore (reapDeadProgramRecords e)
    loadBody e specs

end Bpfman
