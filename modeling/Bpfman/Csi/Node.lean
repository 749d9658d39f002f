import Bpfman.Csi.Request

/-!
# Publishing maps to a pod

`nodePublishVolume` mounts a bpffs of its own for a volume (the per-pod bpffs), pins the requested
maps there and bind-mounts it on the target path; a failure on the way is rolled back. Whether a
target is published already is read off the mount table, the pins at the target and the read-only
flag of its mount. `nodeUnpublishVolume` takes both mounts away.

The kernel keeps a stack of mounts for each path. It knows a path by its resolved form, with `.`,
`..`, repeated slashes and symbolic links gone; that is `Host.resolve`. Mounting and unmounting
resolve the path they are given. The driver compares the path it was given with the mount points in
`/proc/self/mountinfo`, which are resolved, letter by letter.

Every step on the host may fail. Unmounting a path that is no mount point, and removing a directory
that does not exist, cannot.
-/

namespace Bpfman.Csi

open Fallible Proc

/-- A pinned map: its name, the pin it was made from, and the group it was given to. -/
structure Pin where
  name : String
  source : String
  group : Option Int
  deriving DecidableEq, Repr

structure BpfFs where
  pins : List Pin
  group : Option Int
  deriving DecidableEq, Repr

structure Mount where
  fsType : String
  fs : Nat
  readonly : Bool
  deriving DecidableEq, Repr

/-- The mounts on each path, the topmost first, the file systems, and the directories of the driver
and its targets. -/
structure Node where
  mounts : String → List Mount
  fs : Nat → BpfFs
  nextFs : Nat
  dirs : String → Bool

/-- What does not change between calls. -/
structure Host where
  csiFsRoot : String
  resolve : String → String
  /-- Whether the kernel puts its introspection files at the root of a bpffs. -/
  debugFiles : Bool

def Host.podBpffs (host : Host) (volumeID : String) : String := host.csiFsRoot ++ "/" ++ volumeID

/-- The answer of the program finder. -/
inductive FindResult where
  | notFound
  | failed
  | found (mapsDir : String)
  deriving DecidableEq, Repr

/-- The steps of a call on the host. -/
inductive Step where
  | readMountinfo
  | statfsTarget
  | readTarget
  | readPodMountinfo
  | unmountStale
  | removeStale
  | mkdirPod
  | mountPod
  | statfsPod
  | unmountUnusable
  | chownPod
  | statMap (name : String)
  | repinMap (name : String)
  | chownMap (name : String)
  | chmodMap (name : String)
  | mkdirTarget
  | bindTarget
  | remountTarget
  | undoTarget
  | undoPod
  | undoPodDir
  | unmountTarget
  | removeTarget
  | unmountPod
  | removePod
  deriving DecidableEq, Repr

/-- What one call meets: the programs, the pinned maps, and which steps fail. -/
structure CallEnv where
  configured : Bool
  find : String → FindResult
  pinned : String → Bool
  fails : Step → Bool

section

variable (host : Host) (env : CallEnv)

def internal {α : Type} (message : String) : Proc Node Status α := fail ⟨.internal, message⟩

def step (s : Step) (message : String) : Proc Node Status Unit :=
  if env.fails s then internal message else pure ()

/-- The file system type of the topmost mount that the mount table lists under this very path. -/
def mountpointFsType (n : Node) (path : String) : Option String :=
  (n.mounts path).head?.map (·.fsType)

/-- Unmount a path, tolerating one that is not mounted. -/
def unmountIfMounted (s : Step) (path : String) : Proc Node Status Unit := fun n =>
  match n.mounts (host.resolve path) with
  | [] => .ok () n
  | _ :: rest =>
    if env.fails s then .err ⟨.internal, "unmount failed"⟩ n
    else .ok () { n with mounts := Function.update n.mounts (host.resolve path) rest }

/-- Remove a directory and what is in it. A mount that is still there is emptied and stays. -/
def removeAll (s : Step) (path : String) : Proc Node Status Unit := fun n =>
  match n.mounts (host.resolve path) with
  | m :: _ =>
    .err ⟨.internal, "device or resource busy"⟩
      (if m.readonly then n
       else { n with fs := Function.update n.fs m.fs { n.fs m.fs with pins := [] } })
  | [] =>
    if n.dirs (host.resolve path) = false then .ok () n
    else if env.fails s then .err ⟨.internal, "remove failed"⟩ n
    else .ok () { n with dirs := Function.update n.dirs (host.resolve path) false }

def cleanupMount (unmount remove : Step) (path : String) : Proc Node Status Unit := do
  unmountIfMounted host env unmount path
  removeAll host env remove path

def mkdirAll (s : Step) (path message : String) : Proc Node Status Unit := do
  step env s message
  modify fun n => { n with dirs := Function.update n.dirs (host.resolve path) true }

/-- A new, empty bpffs on top of a path. -/
def Node.mountNew (n : Node) (path : String) : Node where
  mounts := Function.update n.mounts path (⟨"bpf", n.nextFs, false⟩ :: n.mounts path)
  fs := Function.update n.fs n.nextFs ⟨[], none⟩
  nextFs := n.nextFs + 1
  dirs := n.dirs

/-- Mount a new bpffs and look whether it is one; if that cannot be seen it is unmounted again. -/
def mountBpffs (path : String) : Proc Node Status Unit := do
  step env .mountPod s!"failed to mount bpffs at {path.quote}"
  modify fun n => n.mountNew (host.resolve path)
  (step env .statfsPod s!"failed to mount bpffs at {path.quote}").onErr
    (unmountIfMounted host env .unmountUnusable path)

def BpfFs.names (fs : BpfFs) : List String :=
  fs.pins.map (·.name) ++ if host.debugFiles then ["maps.debug", "progs.debug"] else []

/-- Change the bpffs on top of a path. -/
def modifyFs (path : String) (f : BpfFs → BpfFs) : Proc Node Status Unit := modify fun n =>
  match n.mounts (host.resolve path) with
  | [] => n
  | m :: _ => { n with fs := Function.update n.fs m.fs (f (n.fs m.fs)) }

def topFs (n : Node) (path : String) : Option BpfFs :=
  (n.mounts (host.resolve path)).head?.map fun m => n.fs m.fs

/-- Pin a map in the bpffs of a pod. A bpffs takes no name with a dot, and none twice. -/
def repinMap (pod name src : String) : Proc Node Status Unit := do
  step env (.repinMap name) s!"failed to re-pin map {name.quote}"
  let names ← read fun n => ((topFs host n pod).map (BpfFs.names host)).getD []
  if '.' ∈ name.toList ∨ name ∈ names then internal s!"failed to re-pin map {name.quote}"
  else modifyFs host pod fun fs => { fs with pins := fs.pins ++ [⟨name, src, none⟩] }

/-- Hand a pin to a group. -/
def Pin.chown (name : String) (gid : Int) (p : Pin) : Pin :=
  if p.name = name then { p with group := some gid } else p

/-- Publish one map in the bpffs of a pod. -/
def publishMap (programName mapsDir pod : String) (gid : Int) (name : String) :
    Proc Node Status Unit := do
  let src := mapsDir ++ "/" ++ name
  step env (.statMap name) s!"stat map pin {src.quote}"
  if env.pinned src then
    repinMap host env pod name src
    if 0 ≤ gid then
      step env (.chownMap name) s!"set group ownership on map {name.quote}"
      modifyFs host pod fun fs => { fs with pins := fs.pins.map (Pin.chown name gid) }
      step env (.chmodMap name) s!"set mode on map {name.quote}"
    else pure ()
  else fail ⟨.notFound, s!"map {name.quote} is not published by program {programName.quote}"⟩

def bindMount (pod target : String) : Proc Node Status Unit := do
  step env .bindTarget s!"failed to bind-mount {pod.quote} to {target.quote}"
  modify fun n =>
    match n.mounts (host.resolve pod) with
    | [] => n
    | m :: _ => { n with
        mounts := Function.update n.mounts (host.resolve target)
          (⟨m.fsType, m.fs, false⟩ :: n.mounts (host.resolve target)) }

/-- Make the mount on top of a path read-only. -/
def remountReadOnly (target : String) : Proc Node Status Unit := do
  step env .remountTarget s!"failed to remount {target.quote} read-only"
  modify fun n =>
    match n.mounts (host.resolve target) with
    | [] => n
    | m :: rest => { n with
        mounts := Function.update n.mounts (host.resolve target)
          ({ m with readonly := true } :: rest) }

/-- Take a per-pod bpffs away that an earlier attempt has left mounted. -/
def cleanStale (pod : String) : Proc Node Status Unit := do
  step env .readPodMountinfo "check per-pod mount state"
  match ← read fun n => mountpointFsType n pod with
  | none => pure ()
  | some _ =>
    mapErr (fun e => ⟨.internal, s!"clean stale per-pod bpffs {pod.quote}: {e.message}"⟩)
      (cleanupMount host env .unmountStale .removeStale pod)

/-- Hand the root directory of a pod's bpffs to a group, if there is one. -/
def chownPod (pod : String) (gid : Int) : Proc Node Status Unit :=
  if 0 ≤ gid then do
    step env .chownPod s!"set group ownership on {pod.quote}"
    modifyFs host pod fun fs => { fs with group := some gid }
  else pure ()

/-- The part of a publish that changes the host. -/
def mountVolume (req : PublishRequest) (maps : List String) (mapsDir pod : String) :
    Proc Node Status Unit := do
  cleanStale host env pod
  mkdirAll host env .mkdirPod pod s!"failed to create bpffs dir {pod.quote}"
  mountBpffs host env pod
  chownPod host env pod (fsGroup req.capability)
  forEach (publishMap host env req.program mapsDir pod (fsGroup req.capability)) maps
  mkdirAll host env .mkdirTarget req.targetPath "failed to create target path"
  bindMount host env pod req.targetPath
  if req.readonly then remountReadOnly host env req.targetPath else pure ()

/-- Undo a publish that failed; what cannot be undone is logged and left. -/
def rollback (target pod : String) : Proc Node Status Unit := do
  (unmountIfMounted host env .undoTarget target).ignore
  (cleanupMount host env .undoPod .undoPodDir pod).ignore

/-- Whether the volume published at a path has the requested maps and read-only flag. -/
def publishMatches (req : PublishRequest) (maps : List String) : Proc Node Status Bool := do
  step env .statfsTarget s!"compare published volume at {req.targetPath.quote}"
  match ← read fun n => (n.mounts (host.resolve req.targetPath)).head? with
  | none => pure false
  | some m =>
    if m.readonly ≠ req.readonly then pure false
    else do
      step env .readTarget s!"compare published volume at {req.targetPath.quote}"
      read fun n => equalStringSets ((BpfFs.names host (n.fs m.fs)).filter
        fun name => name ∉ ["maps.debug", "progs.debug"]) maps

/-- A target that is mounted already: fine if the volume there is the one asked for. -/
def answerMounted (req : PublishRequest) (maps : List String) (fsType : String) :
    Proc Node Status Unit :=
  if fsType ≠ "bpf" then
    fail ⟨.failedPrecondition,
      s!"target path {req.targetPath.quote} is already mounted with filesystem {fsType.quote}"⟩
  else do
    if ← publishMatches host env req maps then pure ()
    else fail ⟨.alreadyExists, s!"volume {req.volumeID.quote} already published at " ++
      s!"{req.targetPath.quote} with different arguments"⟩

def nodePublishVolume (req : PublishRequest) : Proc Node Status Unit := do
  let maps ← lift (checkPublish req)
  step env .readMountinfo "check target path mount state"
  match ← read fun n => mountpointFsType n req.targetPath with
  | some fsType => answerMounted host env req maps fsType
  | none =>
    if ¬ env.configured then
      fail ⟨.failedPrecondition,
        "bpfman integration not configured; programFinder and kernel required"⟩
    else
      match env.find req.program with
      | .notFound => fail ⟨.notFound, s!"program {req.program.quote} not found"⟩
      | .failed => internal s!"failed to find program {req.program.quote}"
      | .found mapsDir =>
        if mapsDir = "" then internal s!"program {req.program.quote} has no map pin path"
        else
          (mountVolume host env req maps mapsDir (host.podBpffs req.volumeID)).onErr
            (rollback host env req.targetPath (host.podBpffs req.volumeID))

def nodeUnpublishVolume (req : UnpublishRequest) : Proc Node Status Unit := do
  lift (checkVolumeID req.volumeID)
  lift (checkTargetPath req.targetPath)
  mapErr
    (fun e => ⟨.internal, s!"failed to clean target path {req.targetPath.quote}: {e.message}"⟩)
    (cleanupMount host env .unmountTarget .removeTarget req.targetPath)
  (cleanupMount host env .unmountPod .removePod (host.podBpffs req.volumeID)).ignore

end

end Bpfman.Csi
