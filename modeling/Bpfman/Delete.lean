import Bpfman.Unload

/-!
# Deleting programs and links

`manager/delete.go`: `DeletePrograms` detaches the links of each target and unloads it. Targets are
ordered so that a program which joined another one's maps comes before it, and a recursive delete
also deletes the dependents that were not named. `DeleteLinks` detaches each link and deletes the
program of a link once it has no link left.

What a batch removed is shared by its deletions, also by those that fail, so it is threaded through
as a value next to the error. A recursion that does not end in the source, over dependents that form
a cycle, ends in an error here.
-/

namespace Bpfman

open Fallible Proc

structure DeleteProgramsOpts where
  recursive : Bool := false
  all : Bool := false
  deriving DecidableEq, Repr

structure DeleteProgramResult where
  programID : ProgramID
  err : Option Err
  deriving Repr

structure DeleteLinksOpts where
  recursive : Bool := false
  deriving DecidableEq, Repr

structure DeleteLinkResult where
  linkID : LinkID
  err : Option Err
  deriving Repr

/-- `deleteBatch`, without the dependents: what the deletions of a call removed, latest first. -/
structure DeleteBatch where
  removedPrograms : List ProgramID := []
  removedLinks : List LinkID := []
  deriving DecidableEq, Repr

/-- `dependentsByOwner`, as pairs of an owner and a program that joined its maps. -/
abbrev Dependents := List (ProgramID × ProgramID)

def Dependents.of (deps : Dependents) (owner : ProgramID) : List ProgramID :=
  (deps.filter (·.1 = owner)).map (·.2)

variable (e : Env)

/-- `ListPrograms`, of which only the records are used. The snapshot reads three tables, and fails
if one of them cannot be read; what it observes of the kernel and of bpffs decorates the reply. -/
def listPrograms : M (List ProgramRecord) :=
  mapErr (.wrap "snapshot") do
    let records ← listProgramsFromStore e
    let _ ← listLinks e
    let _ ← listDispatcherSummaries e
    pure (records.insertionSort fun a b => a.programID ≤ b.programID)

def programDependentsByOwner (recursive : Bool) : M Dependents :=
  if recursive then do
    let records ← mapErr (.wrap "list programs") (listPrograms e)
    pure (records.filterMap fun r => r.mapOwnerID.map (·, r.programID))
  else pure []

/-- `visit` of `orderProgramDeletes`: the programs seen and the order so far. A visit only descends
to selected programs not seen yet, so the number of selected programs bounds its depth. -/
def visit (deps : Dependents) (selected : List ProgramID) :
    Nat → ProgramID → List ProgramID × List ProgramID → List ProgramID × List ProgramID
  | 0, _, st => st
  | fuel + 1, id, (seen, ordered) =>
    if id ∈ seen then (seen, ordered)
    else
      let (seen, ordered) := ((deps.of id).filter (· ∈ selected)).foldl
        (fun st dependent => visit deps selected fuel dependent st) (id :: seen, ordered)
      (seen, ordered ++ [id])

def orderProgramDeletes (ids : List ProgramID) (deps : Dependents) : List ProgramID :=
  if ids.length ≤ 1 || deps.isEmpty then ids
  else (ids.foldl (fun st id => visit deps ids (ids.length + 1) id st) ([], [])).2

def detachEach (links : List LinkRecord) : M Unit :=
  forEach (fun link => mapErr (.wrap s!"detach link {link.id}") (detach e link.id)) links

/-- Detach the links of a program, then unload it: what a deletion does to the world, without its
batch. -/
def detachAndUnload (id : ProgramID) : M Unit := do
  let links ← mapErr (.wrap "list links") (listLinksByProgram e id)
  detachEach e links
  mapErr (.wrap "unload") (unloadProgram e id)

def deleteUnlinked (id : ProgramID) (batch : DeleteBatch) : M (DeleteBatch × Option Err) := do
  match ← attempt (mapErr (.wrap "unload") (unloadProgram e id)) with
  | .ok () => pure ({ batch with removedPrograms := id :: batch.removedPrograms }, none)
  | .error err => pure (batch, some err)

/-- The second half of `deleteProgram`. The links detached before a failure are removed ones. -/
def deleteTarget (id : ProgramID) (batch : DeleteBatch) : M (DeleteBatch × Option Err) := do
  match ← attempt (mapErr (.wrap "list links") (listLinksByProgram e id)) with
  | .error err => pure (batch, some err)
  | .ok links => do
    let (done, err) ← forEachDone
      (fun link => mapErr (.wrap s!"detach link {link.id}") (detach e link.id)) links
    let batch := { batch with removedLinks := done.map (·.id) ++ batch.removedLinks }
    match err with
    | some err => pure (batch, some err)
    | none => deleteUnlinked e id batch

/-- `deleteDependents`, given the deletion of one program. -/
def deleteDependents (delete : ProgramID → DeleteBatch → M (DeleteBatch × Option Err)) :
    List ProgramID → DeleteBatch → M (DeleteBatch × Option Err)
  | [], batch => pure (batch, none)
  | id :: ids, batch =>
    if id ∈ batch.removedPrograms then deleteDependents delete ids batch
    else do
      match ← delete id batch with
      | (batch, none) => deleteDependents delete ids batch
      | (batch, some err) => pure (batch, some (.wrap s!"delete dependent program {id}" err))

def deleteProgram (e : Env) (deps : Dependents) (recursive : Bool) :
    Nat → ProgramID → DeleteBatch → M (DeleteBatch × Option Err)
  | 0, _, batch => pure (batch, some (.msg "dependents form a cycle"))
  | fuel + 1, id, batch =>
    if id ∈ batch.removedPrograms then pure (batch, none)
    else if recursive then do
      match ← deleteDependents (deleteProgram e deps recursive fuel) (deps.of id) batch with
      | (batch, none) => deleteTarget e id batch
      | (batch, some err) => pure (batch, some err)
    else deleteTarget e id batch

/-! ## Programs -/

def deleteEach (e : Env) (deps : Dependents) (expand : Bool) :
    List ProgramID → DeleteBatch → M (List DeleteProgramResult × DeleteBatch)
  | [], batch => pure ([], batch)
  | id :: ids, batch =>
    if id ∈ batch.removedPrograms then do
      let (results, batch) ← deleteEach e deps expand ids batch
      pure (⟨id, none⟩ :: results, batch)
    else do
      -- without a cycle a chain of dependents is no longer than the list of pairs
      let (batch, err) ← deleteProgram e deps expand (deps.length + 1) id batch
      let (results, batch) ← deleteEach e deps expand ids batch
      pure (⟨id, err⟩ :: results, batch)

/-- `DeletePrograms`, with what it removed. -/
def deleteProgramsBatch (ids : List ProgramID) (opts : DeleteProgramsOpts) :
    M (List DeleteProgramResult × DeleteBatch) := do
  let expand := opts.recursive || opts.all
  match ← attempt (programDependentsByOwner e (expand || ids.length > 1)) with
  | .error err => pure (ids.map fun id => ⟨id, some err⟩, {})
  | .ok deps => deleteEach e deps expand (orderProgramDeletes ids deps) {}

def deletePrograms (ids : List ProgramID) (opts : DeleteProgramsOpts) :
    M (List DeleteProgramResult) := do
  let (results, _) ← deleteProgramsBatch e ids opts
  pure results

/-! ## Links -/

/-- The end of the manager's `deleteLink`: the program of the link is deleted if no link of it is
left. -/
def deleteIfOrphaned (deps : Dependents) (recursive : Bool) (id : ProgramID)
    (batch : DeleteBatch) : M (DeleteBatch × Option Err) := do
  match ← attempt (mapErr (.wrap s!"list links for program {id}")
      (listLinksByProgram e id)) with
  | .error err => pure (batch, some err)
  | .ok links =>
    if links.length = 0 then do
      let (batch, err) ← deleteProgram e deps recursive (deps.length + 1) id batch
      pure (batch, err.map (.wrap s!"delete orphaned program {id}"))
    else pure (batch, none)

def deleteFoundLink (deps : Dependents) (recursive : Bool) (id : LinkID)
    (batch : DeleteBatch) (link : LinkRecord) : M (DeleteBatch × Option Err) := do
  match ← attempt (mapErr (.wrap "detach") (detach e id)) with
  | .error err => pure (batch, some err)
  | .ok () =>
    deleteIfOrphaned e deps recursive link.programID
      { batch with removedLinks := id :: batch.removedLinks }

def deleteBatchLink (deps : Dependents) (recursive : Bool) (id : LinkID)
    (batch : DeleteBatch) : M (DeleteBatch × Option Err) :=
  if id ∈ batch.removedLinks then pure (batch, none)
  else do
    match ← attempt (mapErr (.wrap "get link") (getLink e id)) with
    | .error err => pure (batch, some err)
    | .ok link => deleteFoundLink e deps recursive id batch link

def deleteEachLink (e : Env) (deps : Dependents) (recursive : Bool) :
    List LinkID → DeleteBatch → M (List DeleteLinkResult × DeleteBatch)
  | [], batch => pure ([], batch)
  | id :: ids, batch =>
    if id ∈ batch.removedLinks then do
      let (results, batch) ← deleteEachLink e deps recursive ids batch
      pure (⟨id, none⟩ :: results, batch)
    else do
      let (batch, err) ← deleteBatchLink e deps recursive id batch
      let (results, batch) ← deleteEachLink e deps recursive ids batch
      pure (⟨id, err⟩ :: results, batch)

def deleteLinksBatch (ids : List LinkID) (opts : DeleteLinksOpts) :
    M (List DeleteLinkResult × DeleteBatch) := do
  match ← attempt (programDependentsByOwner e opts.recursive) with
  | .error err => pure (ids.map fun id => ⟨id, some err⟩, {})
  | .ok deps => deleteEachLink e deps opts.recursive ids {}

def deleteLinks (ids : List LinkID) (opts : DeleteLinksOpts) : M (List DeleteLinkResult) := do
  let (results, _) ← deleteLinksBatch e ids opts
  pure results

end Bpfman
