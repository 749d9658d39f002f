import Bpfman.Rebuild

/-!
# The executor's dispatcher actions

`manager/executor_dispatcher.go`: the actions an attach and a detach run on a dispatcher, as
instances of the common rebuild.
-/

namespace Bpfman

open Fallible Proc

/-! ## Swapping the outer attachment -/

def xdpRuntime (dispatcherID : ProgramID) (linkID : Option KernelLinkID) (netns : String) :
    DispatcherRuntime :=
  { programID := dispatcherID, kernelLinkID := linkID, filterPriority := none
    filterHandle := none, netnsPath := netns }

variable (e : Env)

/-- First XDP attach: create the outer link; on a failed persist detach it. -/
def xdpCreateSwap (key : Key) (revision : Nat) (netns : String) : Swap where
  swap dispatcherID := do
    let linkID ← mapErr (.wrap "create XDP link")
      (createXDPLink e (.dispatcher key revision) key (.dispatcherLink key) netns)
    pure (xdpRuntime dispatcherID (some linkID) netns)
  restore _ := ignore (detachLink e (.dispatcherLink key))

/-- Later XDP rebuild: update the outer link; on a failed persist point it back at the dispatcher
of the old revision. -/
def xdpUpdateSwap (key : Key) (revision oldRevision : Nat)
    (linkID : Option KernelLinkID) (netns : String) : Swap where
  swap dispatcherID := do
    mapErr (.wrap "update XDP dispatcher link")
      (updateXDPDispatcherLink e (.dispatcherLink key) (.dispatcher key revision))
    pure (xdpRuntime dispatcherID linkID netns)
  restore _ :=
    ignore (updateXDPDispatcherLink e (.dispatcherLink key) (.dispatcher key oldRevision))

/-- The filter a TC snapshot records, as the old priority and handle of a swap. -/
def oldFilter (rt : DispatcherRuntime) : Nat × Nat :=
  match rt.filterPriority with
  | none => (0, 0)
  | some priority => (priority, rt.filterHandle.getD 0)

/-- The removal of the old filter in a TC swap; a failed removal is only logged. `old` is the old
revision, priority and handle, if there is an old filter. -/
def dropOldFilter (key : Key) (netns : String) (old : Option (Nat × Nat × Nat)) : M Unit :=
  match old with
  | some (_, priority, handle) =>
    if handle ≠ 0 then ignore (detachTCFilter e key priority handle netns) else pure ()
  | none => pure ()

/-- The re-creation of the old filter under its handle when a TC swap is taken back. -/
def restoreOldFilter (key : Key) (netns : String) (old : Option (Nat × Nat × Nat)) : M Unit :=
  match old with
  | some (oldRevision, _, handle) =>
    if handle ≠ 0 then
      ignore (createTCFilter e (.dispatcher key oldRevision) key netns handle)
    else pure ()
  | none => pure ()

/-- TC swap: create a filter for the new dispatcher, then remove the old one. On a failed persist
remove the new filter and create the old one again. -/
def tcSwap (key : Key) (revision : Nat) (netns text : String)
    (old : Option (Nat × Nat × Nat)) (programID : ProgramID → ProgramID → ProgramID) : Swap where
  swap dispatcherID := do
    let result ← mapErr (.wrap text)
      (createTCFilter e (.dispatcher key revision) key netns 0)
    dropOldFilter e key netns old
    pure { programID := programID dispatcherID result.dispatcherID, kernelLinkID := none
           filterPriority := some result.priority, filterHandle := some result.handle
           netnsPath := netns }
  restore rt := do
    ignore (detachTCFilter e key (rt.filterPriority.getD 0) (rt.filterHandle.getD 0) netns)
    restoreOldFilter e key netns old

/-! ## Attach -/

/-- `netns.NSID`. -/
def netnsNSID (netns : String) : M Nat :=
  prim e (.nsid netns) fun w => (e.nsid netns).map fun n => (n, w)

/-- The snapshot of an attach point, or none before the first attach. -/
def existingSnapshot (key : Key) : M (Option DispatcherSnapshot) := do
  match ← attempt (getDispatcherSnapshot e key) with
  | .ok snap => pure (some snap)
  | .error err => if isNotFound err then pure none else fail (.wrap "get dispatcher" err)

/-- `int32(n)`. -/
def toInt32 (n : Nat) : Int := ((n : Int) + 2 ^ 31) % 2 ^ 32 - 2 ^ 31

structure ExtensionResult where
  link : LinkRecord
  key : Key
  revision : Nat
  position : Nat
  pinPath : LinkPath

/-- The arguments `rebuildXDPDispatcher` and `rebuildTCDispatcher` share. -/
structure RebuildArgs where
  programID : ProgramID
  ifindex : Nat
  ifname : String
  netnsPath : String
  progPinPath : ProgPinPath
  programName : String
  priority : Nat
  proceedOn : Nat
  metadata : Labels

def RebuildArgs.newSlot (a : RebuildArgs) : RebuildSlot :=
  { progPinPath := a.progPinPath, programName := a.programName, priority := a.priority
    proceedOn := a.proceedOn, existingLinkID := none, programID := a.programID
    ifname := a.ifname, metadata := a.metadata }

/-- The members of a snapshot and the new slot, before sorting. -/
def RebuildArgs.allSlots (a : RebuildArgs) (snap : Option DispatcherSnapshot) : List RebuildSlot :=
  (match snap with
    | some s => s.members.map attachSlot
    | none => []) ++ [a.newSlot]

/-- The revision an attach creates. -/
def attachRevision : Option DispatcherSnapshot → Nat
  | none => 1
  | some snap => nextRevision snap.revision

def newExtRecord (a : RebuildArgs) (key : Key) (revision : Nat) (codes : List Int)
    (position : Nat) (ext : AttachedExt) (m : DispatcherMember) (rt : DispatcherRuntime) :
    LinkRecord :=
  let details : DispatcherDetails :=
    { ifname := a.ifname, ifindex := a.ifindex, priority := toInt32 a.priority
      position := position, proceedOn := codes, netns := "", nsid := key.nsid
      dispatcherID := rt.programID, revision := revision }
  { id := m.linkID, programID := a.programID, kernelLinkID := m.kernelLinkID
    kind := key.type.linkKind, pinPath := some ext.pinPath
    details := some (match key.type with
      | .xdp => .xdp details
      | .tcIngress => .tc .ingress details
      | .tcEgress => .tc .egress details)
    createdAt := 0, metadata := m.metadata }

/-- What sets the XDP and the TC attach rebuild apart. -/
structure AttachKind where
  type : DispatcherType
  config : List RebuildSlot → Except Err Config
  swap : Key → Option DispatcherSnapshot → Nat → Swap
  configText : String
  loadText : String
  attachText : String
  decodeText : String

/-- The rebuild of an attach. Its cleanup only removes the dispatcher pin. -/
def AttachKind.plan (k : AttachKind) (e : Env) (key : Key) (snap : Option DispatcherSnapshot)
    (slots : List RebuildSlot) (cfg : Config) : RebuildPlan where
  key := key
  revision := attachRevision snap
  config := cfg
  slots := slots
  cleanupNew := removePin e (.dispatcher key (attachRevision snap))
  swap := k.swap key snap (attachRevision snap)
  loadText := k.loadText
  attachText := k.attachText

/-- Remove the directory of the revision a rebuild replaced; a failure is only logged. -/
def dropRevision (key : Key) (revision : Nat) : M Unit :=
  ignore (removeAll e (.revision key revision))

/-- The removal of the old revision's directory after an attach, if there is an old revision. -/
def dropOldRevision (key : Key) : Option DispatcherSnapshot → M Unit
  | some s => dropRevision e key s.revision
  | none => pure ()

/-- The result of an attach: the member written for the new slot and the link attached for it. -/
def reportExtension (a : RebuildArgs) (key : Key) (revision : Nat) (codes : List Int)
    (position : Nat) (attached : List AttachedExt) (completed : DispatcherSnapshot) :
    M ExtensionResult :=
  match attached[position]?, completed.members[position]? with
  | some ext, some m =>
    pure { link := newExtRecord a key revision codes position ext m completed.runtime
           key := key, revision := revision, position := position, pinPath := ext.pinPath }
  | _, _ => fail (.msg "index out of range")

/-- What the two attach rebuilds share: read the snapshot, place the new slot, rebuild, remove the
old revision's directory, report the new link. -/
def rebuildForAttach (k : AttachKind) (a : RebuildArgs) : M ExtensionResult := do
  let nsid ← mapErr (.wrap "get nsid") (netnsNSID e a.netnsPath)
  let key : Key := ⟨k.type, nsid, a.ifindex⟩
  let snap ← existingSnapshot e key
  let allSlots := a.allSlots snap
  if allSlots.length > maxPrograms then
    fail (.msg s!"no free dispatcher slots (all {maxPrograms} occupied)")
  else do
    let slots := sortRebuildSlots allSlots
    let cfg ← mapErr (.wrap k.configText) (lift (k.config slots))
    let (completed, attached) ← rebuildDispatcher e (k.plan e key snap slots cfg)
    dropOldRevision e key snap
    let position := newSlotPosition slots
    let codes ← mapErr (.wrap k.decodeText) (lift (proceedOnActions k.type a.proceedOn))
    reportExtension a key (attachRevision snap) codes position attached completed

def xdpAttach (netns : String) : AttachKind where
  type := .xdp
  config slots := (xdpConfig slots).map .xdp
  swap key snap revision := match snap with
    | none => xdpCreateSwap e key revision netns
    | some s => xdpUpdateSwap e key revision s.revision (some (s.runtime.kernelLinkID.getD 0)) netns
  configText := "create XDP dispatcher config"
  loadText := "load XDP dispatcher"
  attachText := "attach XDP extension"
  decodeText := "decode XDP proceed-on"

def tcAttach (direction : TCDirection) (netns : String) : AttachKind where
  type := direction.dispatcherType
  config slots := (tcConfig slots).map .tc
  swap key snap revision := tcSwap e key revision netns "create TC filter"
    (snap.map fun s => (s.revision, oldFilter s.runtime)) fun loaded _ => loaded
  configText := "create TC dispatcher config"
  loadText := "load TC dispatcher"
  attachText := "attach TC extension"
  decodeText := "decode TC proceed-on"

def rebuildXDPDispatcher (a : RebuildArgs) : M ExtensionResult :=
  rebuildForAttach e (xdpAttach e a.netnsPath) a

def rebuildTCDispatcher (direction : TCDirection) (a : RebuildArgs) : M ExtensionResult :=
  rebuildForAttach e (tcAttach e direction a.netnsPath) a

/-! ## Detach -/

/-- `detachTCDispatcherFilter`; `tcpolicy.ReclaimClsactOnDetach` is false. -/
def detachTCDispatcherFilter (snap : DispatcherSnapshot) : M Unit :=
  match snap.runtime.filterHandle with
  | some handle =>
    if handle ≠ 0 then
      detachTCFilter e snap.key (snap.runtime.filterPriority.getD 0) handle snap.runtime.netnsPath
    else pure ()
  | none => pure ()

/-- `removeEmptyDispatcher`: detach the outer attachment, then remove the program pin, the revision
directory and the snapshot. Only a failed detach and a failed delete are reported. -/
def removeEmptyDispatcher (snap : DispatcherSnapshot) : M Unit := do
  if isTCDispatcherType snap.key.type then
    mapErr (.wrap "detach TC dispatcher filter") (detachTCDispatcherFilter e snap)
  else
    mapErr (.wrap "detach XDP outer link") (detachLink e (.dispatcherLink snap.key))
  ignore (removePin e (.dispatcher snap.key snap.revision))
  ignore (removeAll e (.revision snap.key snap.revision))
  mapErr (.wrap "delete dispatcher snapshot") (deleteDispatcherSnapshot e snap.key)

def removeDispatcherIfEmpty (key : Key) : M Unit := do
  let snap ← mapErr (.wrap "get dispatcher snapshot") (getDispatcherSnapshot e key)
  if snap.members.length ≠ 0 then pure () else removeEmptyDispatcher e snap

/-- What sets the XDP and the TC detach rebuild apart. -/
structure DetachKind where
  config : List RebuildSlot → Except Err Config
  swap : DispatcherSnapshot → Nat → Swap
  configText : String
  loadText : String
  attachText : String

/-- The rebuild of a detach. Its cleanup removes the directory of the new revision. -/
def DetachKind.plan (k : DetachKind) (e : Env) (snap : DispatcherSnapshot)
    (slots : List RebuildSlot) (revision : Nat) (cfg : Config) : RebuildPlan where
  key := snap.key
  revision := revision
  config := cfg
  slots := slots
  cleanupNew := removeAll e (.revision snap.key revision)
  swap := k.swap snap revision
  loadText := k.loadText
  attachText := k.attachText

/-- What the two detach rebuilds share. -/
def rebuildForDetach (k : DetachKind) (snap : DispatcherSnapshot)
    (slots : List RebuildSlot) (revision : Nat) : M Unit := do
  let cfg ← mapErr (.wrap k.configText) (lift (k.config slots))
  let _ ← rebuildDispatcher e (k.plan e snap slots revision cfg)
  dropRevision e snap.key snap.revision

def xdpDetach : DetachKind where
  config slots := (xdpConfig slots).map .xdp
  swap snap revision :=
    xdpUpdateSwap e snap.key revision snap.revision snap.runtime.kernelLinkID snap.runtime.netnsPath
  configText := "create XDP dispatcher config for detach rebuild"
  loadText := "load XDP dispatcher for detach rebuild"
  attachText := "re-attach XDP extension"

def tcDetach : DetachKind where
  config slots := (tcConfig slots).map .tc
  swap snap revision :=
    tcSwap e snap.key revision snap.runtime.netnsPath "create TC filter for detach rebuild"
      (some (snap.revision, oldFilter snap.runtime)) fun _ created => created
  configText := "create TC dispatcher config for detach rebuild"
  loadText := "load TC dispatcher for detach rebuild"
  attachText := "re-attach TC extension"

def rebuildXDPForDetach (snap : DispatcherSnapshot) (slots : List RebuildSlot)
    (revision : Nat) : M Unit := rebuildForDetach e (xdpDetach e) snap slots revision

def rebuildTCForDetach (snap : DispatcherSnapshot) (slots : List RebuildSlot)
    (revision : Nat) : M Unit := rebuildForDetach e (tcDetach e) snap slots revision

/-- The members that stay when `exclude` is detached. -/
def remainingMembers (snap : DispatcherSnapshot) (exclude : LinkID) : List DispatcherMember :=
  snap.members.filter (·.linkID ≠ exclude)

/-- Whether `os.Stat` finds the recorded namespace gone. -/
def netnsGone (netns : String) : Bool := netns ≠ "" && !e.netnsExists netns

def rebuildDispatcherForDetach (key : Key) (exclude : LinkID) : M Unit := do
  let snap ← mapErr (.wrap "get dispatcher snapshot") (getDispatcherSnapshot e key)
  let snap := { snap with members := remainingMembers snap exclude }
  if snap.members.length = 0 then removeEmptyDispatcher e snap
  else if netnsGone e snap.runtime.netnsPath then removeEmptyDispatcher e snap
  else do
    let slots := sortRebuildSlots (snap.members.map detachSlot)
    let revision := nextRevision snap.revision
    if key.type = .xdp then rebuildXDPForDetach e snap slots revision
    else rebuildTCForDetach e snap slots revision

end Bpfman
