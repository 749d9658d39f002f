import Bpfman.Manager

/-!
# Unload

`manager/unload.go`, with the statements of `platform/store/sqlite/programs.go` and
`shared_map_pins.go` it runs: detach the links of a program, drop its pin, release what it holds of
the shared maps and of its map set, delete its record.
-/

namespace Bpfman

open Fallible Proc

/-! ## The store -/

namespace Store

/-- `Delete`. The links of the program and its shared-map rows cascade. -/
def deleteProgram (s : Store) (id : ProgramID) : Except Err Store :=
  if s.programs.any (·.programID = id) then
    .ok { s.deleteLinks ((s.links.filter (·.programID = id)).map (·.id)) with
      programs := s.programs.filter (·.programID ≠ id)
      sharedMapPins := s.sharedMapPins.filter (·.programID ≠ id) }
  else .error (.wrap s!"program {id}" .recordNotFound)

/-- `DeleteSharedMapPins`: drop the references of a program; the names no program references any
more are orphaned. -/
def deleteSharedMapPins (s : Store) (id : ProgramID) : List String × Store :=
  let names := (s.sharedMapPins.filter (·.programID = id)).map (·.mapName)
  let rows := s.sharedMapPins.filter (·.programID ≠ id)
  (names.filter fun name => rows.all (·.mapName ≠ name), { s with sharedMapPins := rows })

def countMapSetUsers (s : Store) (id : ProgramID) : Nat := s.programs.countP (·.mapSetID = id)

def mapSetExists (s : Store) (id : ProgramID) : Bool := s.mapSets.any (·.id = id)

/-- `DeleteMapSet`; a set that a program still uses is restricted by its foreign key. -/
def deleteMapSet (s : Store) (id : ProgramID) : Except Err Store :=
  if s.programs.any (·.mapSetID = id) then .error (.msg "FOREIGN KEY constraint failed")
  else if s.mapSetExists id then .ok { s with mapSets := s.mapSets.filter (·.id ≠ id) }
  else .error (.wrap s!"map set {id}" .recordNotFound)

end Store

variable (e : Env)

/-- `store.Delete`. -/
def deleteProgramRecord (id : ProgramID) : M Unit :=
  primErr e (.deleteProgram id) fun w =>
    (w.store.deleteProgram id).map fun s => ((), { w with store := s })

/-- `DeleteSharedMapPins`, one transaction. -/
def deleteSharedMapPins (id : ProgramID) : M (List String) :=
  prim e (.deleteSharedMapPins id) fun w =>
    some ((w.store.deleteSharedMapPins id).1,
      { w with store := (w.store.deleteSharedMapPins id).2 })

def countMapSetUsers (id : ProgramID) : M Nat :=
  query e (.countMapSetUsers id) fun s => .ok (s.countMapSetUsers id)

def mapSetExists (id : ProgramID) : M Bool :=
  query e (.mapSetExists id) fun s => .ok (s.mapSetExists id)

def deleteMapSet (id : ProgramID) : M Unit :=
  primErr e (.deleteMapSet id) fun w =>
    (w.store.deleteMapSet id).map fun s => ((), { w with store := s })

/-! ## The kernel adapter and the bytecode directory -/

/-- Unlink a map pin; a missing pin is not an error. -/
def removeMapPin (p : MapPinPath) : M Unit :=
  prim e (.removeMap p) fun w => some ((), w.eraseMap p)

/-- The map pins in a directory. -/
def World.mapPinsIn (w : World) (d : Dir) : List MapPinPath :=
  (w.mapPins.map (·.1)).filter (·.parent = d)

/-- `Unload` on a map directory: remove the entries one by one, then the directory. A directory
that is not there is not an error. -/
def removeProgramMapsPins (d : Dir) : M Unit := do
  if d ∈ (← read World.dirs) then do
    let pins ← read fun w => w.mapPinsIn d
    forEach (removeMapPin e) pins
    prim e (.rmdir d) fun w => if w.dirEmpty d then some ((), w.rmdir d) else none
  else pure ()

/-- `RemoveProgramDir`. -/
def removeProgramBytecodeDir (id : ProgramID) : M Unit :=
  prim e (.removeBytecode id) fun w => some ((), { w with bytecode := w.bytecode.erase id })

/-! ## Unload -/

/-- `detachAllLinks`: the dispatchers it rebuilt. The list of links is the one read before the first
detach. -/
def detachAllLinks (e : Env) : List LinkRecord → M (List Key)
  | [] => pure []
  | link :: links =>
    match link.pinPath with
    | none => detachAllLinks e links
    | some pin => do
      mapErr (.wrap s!"detach link {link.id}") (detachLink e pin)
      match extractDispatcherKey link.details with
      | none => detachAllLinks e links
      | some key => do
        mapErr (.wrap s!"rebuild dispatcher after detaching link {link.id}")
          (rebuildDispatcherForDetach e key link.id)
        let keys ← detachAllLinks e links
        pure (key :: keys)

def cleanupSharedMapPins (id : ProgramID) : M Unit := do
  let orphaned ← deleteSharedMapPins e id
  forEach (fun name => ignore (removeMapPin e (.shared name))) orphaned

def gcMapSetIfUnused (mapSetID : ProgramID) (mapsDir : Dir) : M Unit := do
  let users ← mapErr (.wrap s!"count map set users for {mapSetID}")
    (countMapSetUsers e mapSetID)
  if users > 0 then pure ()
  else do
    mapErr (.wrap "remove map set pins") (removeProgramMapsPins e mapsDir)
    mapErr (.wrap s!"delete map set {mapSetID}") (deleteMapSet e mapSetID)

def shouldRemoveNonPersistedSelfOwnedMapPins (mapSetID : ProgramID) : M Bool := do
  match ← attempt (mapSetExists e mapSetID) with
  | .ok exists? => pure !exists?
  | .error _ => pure false

def collectDispatcherKeys (links : List LinkRecord) : List Key :=
  (links.filterMap dispatcherKey).dedup

def cleanupEmptyDispatchers (keys : List Key) : M Unit :=
  forEach (fun key => ignore (removeDispatcherIfEmpty e key)) keys

/-- The id of the map set a program uses. -/
def ProgramRecord.mapSetID (record : ProgramRecord) : ProgramID :=
  record.mapOwnerID.getD record.programID

/-- The record of an unload is deleted and, once it is gone, its map set if that has no user left.
Only the failed delete is part of the result. -/
def releaseRecord (record : ProgramRecord) : M (Except Err Unit) := do
  match ← attempt (deleteProgramRecord e record.programID) with
  | .ok () => do
    ignore (gcMapSetIfUnused e record.mapSetID record.mapsDir)
    pure (.ok ())
  | .error err => pure (.error (.join [.wrap "delete program record" err]))

/-- The map pins of a program that was loaded but not recorded are removed, if they are its own and
no recorded set has its id. -/
def removeUnrecordedMaps (record : ProgramRecord) : M Unit :=
  if record.mapSetID = record.programID then do
    let remove ← shouldRemoveNonPersistedSelfOwnedMapPins e record.mapSetID
    if remove then ignore (removeProgramMapsPins e record.mapsDir) else pure ()
  else pure ()

/-- What an unload does with the record and the map set. -/
def release (record : ProgramRecord) (persisted : Bool) : M (Except Err Unit) :=
  if persisted then releaseRecord e record
  else do
    removeUnrecordedMaps e record
    pure (.ok ())

def unload (e : Env) (record : ProgramRecord) (links : List LinkRecord) (persisted : Bool) :
    M Unit := do
  let rebuilt ← mapErr (.wrap s!"detach links for program {record.programID}")
    (detachAllLinks e links)
  mapErr (.wrap s!"unload program {record.programID}") (removePin e record.pinPath)
  ignore (cleanupSharedMapPins e record.programID)
  let result ← release e record persisted
  ignore (removeProgramBytecodeDir e record.programID)
  cleanupEmptyDispatchers e ((collectDispatcherKeys links).filter (· ∉ rebuilt))
  lift result

/-- How `Unload` reports a program it cannot look up. -/
def unmanagedErr (id : ProgramID) : Err → Err
  | .programNotFound i => if e.live id then .programNotManaged id else .programNotFound i
  | err => err

/-- `Unload`. -/
def unloadProgram (id : ProgramID) : M Unit := do
  let record ← mapErr (unmanagedErr e id) (getProgram e id)
  let links ← mapErr (.wrap s!"list links for program {id}") (listLinksByProgram e id)
  unload e record links true

end Bpfman
