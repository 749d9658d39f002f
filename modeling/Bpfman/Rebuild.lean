import Bpfman.Adapter
import Bpfman.Lib.SwapSort

/-!
# Dispatcher rebuild

`manager/executor_dispatcher.go`. Every XDP or TC attach or detach that changes the members of an
attach point rebuilds the dispatcher: load a new dispatcher program with the masks of all members,
attach every member to it, point the outer link or filter at it, write the new snapshot.

The four rebuilds of the source (XDP and TC, attach and detach) share `rebuildDispatcher`. They
differ in the config, in how the outer attachment is swapped and restored (`Swap`), in what is
removed when a step fails, and in the error texts.
-/

namespace Bpfman

open Fallible Proc

/-! ## Slots -/

structure RebuildSlot where
  progPinPath : ProgPinPath
  programName : String
  priority : Nat
  proceedOn : Nat
  existingLinkID : Option LinkID
  programID : ProgramID
  ifname : String
  metadata : Labels
  deriving DecidableEq, Repr

/-- The condition of `sortRebuildSlots` under which slot `a` moves in front of its left neighbour
`b`. -/
def slotLess (a b : RebuildSlot) : Bool :=
  let ai := a.existingLinkID.isSome
  let aj := b.existingLinkID.isSome
  a.priority < b.priority ||
    (a.priority = b.priority && !ai && aj) ||
    (a.priority = b.priority && ai = aj && a.programName < b.programName)

/-- `sortRebuildSlots`: each slot is swapped to the left while it is less than its neighbour. -/
def sortRebuildSlots (slots : List RebuildSlot) : List RebuildSlot := SwapSort.sort slotLess slots

/-- The slot an existing member keeps in an attach. -/
def attachSlot (m : DispatcherMember) : RebuildSlot :=
  { progPinPath := m.progPinPath, programName := m.programName, priority := m.priority
    proceedOn := m.proceedOn, existingLinkID := some m.linkID, programID := m.programID
    ifname := m.ifname, metadata := m.metadata }

/-- The slot an existing member keeps in a detach; the labels are not carried over. -/
def detachSlot (m : DispatcherMember) : RebuildSlot :=
  { progPinPath := m.progPinPath, programName := m.programName, priority := m.priority
    proceedOn := m.proceedOn, existingLinkID := some m.linkID, programID := m.programID
    ifname := m.ifname, metadata := [] }

/-- The position of the slot without a link id; the last one if there are several. -/
def newSlotPosition (slots : List RebuildSlot) : Nat :=
  (slots.zipIdx.foldl (fun pos x => if x.1.existingLinkID.isNone then some x.2 else pos)
    none).getD (slots.length - 1)

/-! ## Configs -/

def dispatcherRunPriority : Nat := 50

def newXDPConfig (numProgs : Nat) : Except Err XDPConfig :=
  if numProgs < 1 || numProgs > maxPrograms then
    .error (.msg s!"numProgs {numProgs} out of range [1, {maxPrograms}]")
  else
    .ok { magic := 236, dispatcherVersion := 2, numProgsEnabled := numProgs, isXDPFrags := 0
          chainCallActions := List.replicate maxPrograms 0
          runPrios := List.replicate maxPrograms dispatcherRunPriority
          programFlags := List.replicate maxPrograms 0 }

def newTCConfig (numProgs : Nat) : Except Err TCConfig :=
  if numProgs < 1 || numProgs > maxPrograms then
    .error (.msg s!"numProgs {numProgs} out of range [1, {maxPrograms}]")
  else
    .ok { numProgsEnabled := numProgs, chainCallActions := List.replicate maxPrograms 0
          runPrios := List.replicate maxPrograms dispatcherRunPriority }

/-- `for i, slot := range slots { cfg.ChainCallActions[i] = slot.ProceedOn }`. -/
def fillActions : List RebuildSlot → List Nat → List Nat
  | slot :: slots, _ :: actions => slot.proceedOn :: fillActions slots actions
  | _, actions => actions

/-- The config the XDP rebuilds load. -/
def xdpConfig (slots : List RebuildSlot) : Except Err XDPConfig := do
  let cfg ← newXDPConfig slots.length
  .ok { cfg with chainCallActions := fillActions slots cfg.chainCallActions }

/-- The config the TC rebuilds load. -/
def tcConfig (slots : List RebuildSlot) : Except Err TCConfig := do
  let cfg ← newTCConfig slots.length
  .ok { cfg with chainCallActions := fillActions slots cfg.chainCallActions }

/-! ## Attaching the members -/

structure AttachedExt where
  kernelLinkID : KernelLinkID
  position : Nat
  pinPath : LinkPath
  deriving DecidableEq, Repr

/-- `dispatcherMembers`: slot `i` with the link attached for it. -/
def dispatcherMembers (slots : List RebuildSlot) (attached : List AttachedExt) :
    List DispatcherMemberSpec :=
  (slots.zip attached).zipIdx.map fun ((slot, ext), i) =>
    { existingLinkID := slot.existingLinkID, programID := slot.programID
      programName := slot.programName, progPinPath := slot.progPinPath
      kernelLinkID := some ext.kernelLinkID, linkPinPath := some ext.pinPath
      position := i, priority := slot.priority, proceedOn := slot.proceedOn
      ifname := slot.ifname, metadata := slot.metadata }

def cleanupExtensions (e : Env) (attached : List AttachedExt) : M Unit :=
  forEach (fun ext => ignore (detachLink e ext.pinPath)) attached

/-- The loop that attaches slot `i`, `i + 1`, … to the new dispatcher. A failed attach runs
`cleanup` on what is attached so far. -/
def attachExtensions (e : Env) (key : Key) (revision : Nat) (text : String)
    (cleanup : List AttachedExt → M Unit) :
    List RebuildSlot → Nat → List AttachedExt → M (List AttachedExt)
  | [], _, attached => pure attached
  | slot :: slots, i, attached => do
    let path := LinkPath.extension key revision i
    let id ← onErr
      (mapErr (.wrap s!"{text} {slot.programName} at position {i}")
        (attachExtension e
          { dispatcherPinPath := .dispatcher key revision, progPinPath := slot.progPinPath
            programName := slot.programName, position := i, linkPinPath := path }))
      (cleanup attached)
    attachExtensions e key revision text cleanup slots (i + 1) (attached ++ [⟨id, i, path⟩])

/-! ## The rebuild -/

/-- How a rebuild points the outer attachment at the new dispatcher, given its program id, and how
it takes that back when the snapshot cannot be written. -/
structure Swap where
  swap : ProgramID → M DispatcherRuntime
  restore : DispatcherRuntime → M Unit

/-- What one rebuild passes to the common sequence. -/
structure RebuildPlan where
  key : Key
  revision : Nat
  config : Config
  slots : List RebuildSlot
  /-- Removes the new dispatcher after a failed step. -/
  cleanupNew : M Unit
  swap : Swap
  loadText : String
  attachText : String

/-- `cleanupExtensions` followed by `cleanupNewDispatcher` or `cleanupNewRevision`. -/
def RebuildPlan.cleanup (e : Env) (p : RebuildPlan) (attached : List AttachedExt) : M Unit := do
  cleanupExtensions e attached
  ignore p.cleanupNew

/-- The sequence the four rebuilds share: load, attach, swap, persist. -/
def rebuildDispatcher (e : Env) (p : RebuildPlan) : M (DispatcherSnapshot × List AttachedExt) := do
  let dispatcherID ← mapErr (.wrap p.loadText)
    (loadAndPinDispatcher e p.config (.dispatcher p.key p.revision))
  let attached ← attachExtensions e p.key p.revision p.attachText (p.cleanup e) p.slots 0 []
  let runtime ← onErr (p.swap.swap dispatcherID) (p.cleanup e attached)
  let completed ← onErr
    (replaceDispatcherSnapshot e ⟨p.key, p.revision, runtime, dispatcherMembers p.slots attached⟩)
    (do p.swap.restore runtime; p.cleanup e attached)
  pure (completed, attached)

/-- `snap.Revision + 1` in `uint32`. -/
def nextRevision (revision : Nat) : Nat := (revision + 1) % 2 ^ 32

end Bpfman
