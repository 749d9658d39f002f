import Bpfman.World
import Bpfman.Lib.Anchor

/-!
# The kernel adapter

`platform/ebpf`: what the manager's kernel calls do, step by step, with the steps at which each can
fail and what it cleans up itself. A link's file descriptor is closed once the link is pinned, so
removing the pin detaches the link.
-/

namespace Bpfman

open Fallible Proc

def tcDispatcherPriority : Nat := 50

variable (e : Env)

/-- `pinWithRetry` of a program: make sure of the parent directory, then pin. -/
def pinProg (p : ProgPinPath) (x : Prog) : M Unit := do
  mkdirAll e p.parent
  prim e (.pinProg p) fun w =>
    if (w.prog? p).isSome then none else some ((), w.addProg p x)

def pinLink (p : LinkPath) (x : Link) : M Unit := do
  mkdirAll e p.parent
  prim e (.pinLink p) fun w =>
    if (w.link? p).isSome then none else some ((), w.addLink p x)

/-- `RemovePin`: unlink a program pin; a missing pin is not an error. -/
def removePin (p : ProgPinPath) : M Unit :=
  prim e (.removeProg p) fun w => some ((), w.eraseProg p)

/-- Unlink a link pin; tells whether there was one. -/
def removeLinkPin (p : LinkPath) : M Bool :=
  prim e (.removeLink p) fun w => some ((w.link? p).isSome, w.eraseLink p)

/-- `DetachLink`: unlink the pin and, if there was one, try to remove the directory it was in. -/
def detachLink (p : LinkPath) : M Unit := do
  let removed ← removeLinkPin e p
  if removed then rmdir e p.parent else pure ()

/-- `LoadAndPinXDPDispatcher` and `LoadAndPinTCDispatcher`: load the object with its config, then
pin it. A failed pin leaves the directory made for it. -/
def loadAndPinDispatcher (cfg : Config) (p : ProgPinPath) : M ProgramID := do
  prim e (.loadDispatcher p) fun w => some ((), w)
  pinProg e p ⟨e.dispatcherID p, some cfg⟩
  pure (e.dispatcherID p)

/-- `dispatcher.XDPExtensionAttachSpec` and `dispatcher.TCExtensionAttachSpec`. -/
structure ExtensionAttachSpec where
  dispatcherPinPath : ProgPinPath
  progPinPath : ProgPinPath
  programName : String
  position : Nat
  linkPinPath : LinkPath

def ExtensionAttachSpec.valid (s : ExtensionAttachSpec) : Bool :=
  s.programName ≠ "" && s.position < maxPrograms

/-- `finishPinnedAttach`: pin the link and read its info back; on a failure close the link and
unlink the path it was to be pinned at. -/
def finishPinnedAttach (p : LinkPath) (x : Link) : M KernelLinkID :=
  onErr
    (do
      pinLink e p x
      prim e (.linkInfo p) fun w => some ((), w)
      pure (e.linkID p))
    (removeLinkPin e p)

/-- `AttachXDPExtension` and `AttachTCExtension`: open both pinned programs, attach the extension
to its slot, pin the link. -/
def attachExtension (s : ExtensionAttachSpec) : M KernelLinkID := do
  let lnk ← prim e (.freplace s.linkPinPath) fun w => do
    guard s.valid
    let disp ← w.prog? s.dispatcherPinPath
    let ext ← w.prog? s.progPinPath
    some (Link.extension (e.linkID s.linkPinPath) disp s.position ext, w)
  finishPinnedAttach e s.linkPinPath lnk

/-- Whether the namespace an operation runs in can be entered; the empty path is the daemon's. -/
def netnsPresent (netns : String) : Bool := netns = "" || e.netnsExists netns

/-- `CreateXDPLink`: attach the pinned dispatcher to the interface and pin the link. A link that
cannot be pinned is closed and so detached. -/
def createXDPLink (prog : ProgPinPath) (key : Key) (p : LinkPath) (netns : String) :
    M KernelLinkID := do
  let lnk ← prim e (.attachXDP p) fun w => do
    guard (netnsPresent e netns)
    let disp ← w.prog? prog
    some (Link.outer (e.linkID p) key disp, w)
  pinLink e p lnk
  pure (e.linkID p)

/-- `UpdateXDPDispatcherLink`: point the pinned outer link at the pinned program. -/
def updateXDPDispatcherLink (p : LinkPath) (prog : ProgPinPath) : M Unit :=
  prim e (.updateLink p prog) fun w => do
    let disp ← w.prog? prog
    match w.link? p with
    | some (.outer id key _) => some ((), w.setLink p (.outer id key disp))
    | _ => none

/-- `platform.TCDispatcherResult`. -/
structure TCFilterResult where
  dispatcherID : ProgramID
  handle : Nat
  priority : Nat

/-- The handle a filter is created with: the one asked for, or one the kernel picks. -/
def newFilterHandle (prog : ProgPinPath) (desired : Nat) : Nat :=
  if desired ≠ 0 then desired else e.filterHandle prog

/-- `CreateTCFilter`: add a filter that runs the pinned program, then read the handle and the
program info back. A failure to read them back leaves the filter in place. -/
def createTCFilter (prog : ProgPinPath) (key : Key) (netns : String) (desired : Nat) :
    M TCFilterResult := do
  let disp ← prim e (.addFilter prog) fun w => do
    guard (netnsPresent e netns)
    let disp ← w.prog? prog
    if ∃ f ∈ w.filters, f.key = key ∧ f.priority = tcDispatcherPriority ∧
        f.handle = newFilterHandle e prog desired then
      none
    else
      some (disp, w.addFilter ⟨key, tcDispatcherPriority, newFilterHandle e prog desired, disp⟩)
  prim e (.filterInfo prog) fun w =>
    if newFilterHandle e prog desired = 0 then none else some ((), w)
  pure ⟨disp.id, newFilterHandle e prog desired, tcDispatcherPriority⟩

/-- `DetachTCFilter`: delete the filter by priority and handle. A namespace that is gone took its
filters with it, and a filter that is not there is not an error. -/
def detachTCFilter (key : Key) (priority handle : Nat) (netns : String) : M Unit :=
  if netnsPresent e netns then
    prim e (.delFilter key priority handle) fun w => some ((), w.deleteFilter key priority handle)
  else pure ()

/-! ## Probes -/

/-- Open the pinned program and attach it to its probe. -/
def openProbe (prog : ProgPinPath) (p : LinkPath) : M Unit :=
  prim e (.attachProbe p) fun w => (w.prog? prog).map fun _ => ((), w)

/-- `lnk.Info` on the link of a probe. -/
def probeInfo (p : LinkPath) : M Unit := prim e (.linkInfo p) fun w => some ((), w)

/-- `AttachTracepoint`, `AttachKprobe`, `AttachFentry` and `AttachFexit`. The link is pinned first;
a failure to read its info back closes the link and leaves the pin. -/
def attachProbe (prog : ProgPinPath) (p : LinkPath) : M KernelLinkID := do
  openProbe e prog p
  pinLink e p (.standalone (e.linkID p))
  probeInfo e p
  pure (e.linkID p)

/-- `AttachUprobeLocal` and `AttachUprobeContainer`. The info is read before the link is pinned. -/
def attachUprobe (prog : ProgPinPath) (p : LinkPath) : M KernelLinkID := do
  openProbe e prog p
  probeInfo e p
  pinLink e p (.standalone (e.linkID p))
  pure (e.linkID p)

/-! ## TCX -/

def tcxLinkPath (hook : TCXHook) (id : ProgramID) : LinkPath :=
  .tcx hook.direction hook.nsid hook.ifindex id

structure TCXAttachOrder where
  first : Bool := false
  beforeProgID : ProgramID := 0
  afterProgID : ProgramID := 0
  deriving DecidableEq, Repr

/-- `link.Anchor`: where the kernel is to put a program in a chain. -/
inductive TCXAnchor where
  | head
  | before (id : ProgramID)
  | after (id : ProgramID)
  deriving DecidableEq, Repr

/-- The anchor `AttachTCX` picks for an order; without one it is the head. -/
def TCXAttachOrder.anchor (o : TCXAttachOrder) : TCXAnchor :=
  if o.first then .head
  else if o.beforeProgID ≠ 0 then .before o.beforeProgID
  else if o.afterProgID ≠ 0 then .after o.afterProgID
  else .head

/-- What the kernel does with a new TCX link: a program is at most once in a chain, and the program
of an anchor has to be in it. -/
def World.placeTCX (w : World) (hook : TCXHook) (id : ProgramID) (p : LinkPath) (a : TCXAnchor) :
    Option World :=
  let others := w.tcxOrder.filter (· ≠ p)
  if id ∈ w.tcxChain hook then none
  else match a with
    | .head => some { w with tcxOrder := p :: others }
    | .before x =>
      if x ∈ w.tcxChain hook then
        some { w with tcxOrder := Anchor.insertBefore (w.runsAt hook · = some x) p others }
      else none
    | .after x =>
      if x ∈ w.tcxChain hook then
        some { w with tcxOrder := Anchor.insertAfter (w.runsAt hook · = some x) p others }
      else none

/-- `AttachTCX` of the adapter: attach the pinned program to the hook and pin the link. -/
def kernelAttachTCX (hook : TCXHook) (prog : ProgPinPath) (p : LinkPath) (netns : String)
    (order : TCXAttachOrder) : M KernelLinkID := do
  let lnk ← prim e (.attachTCX p) fun w => do
    guard (netnsPresent e netns)
    let x ← w.prog? prog
    let w' ← w.placeTCX hook x.id p order.anchor
    some (Link.tcx (e.linkID p) hook x, w')
  finishPinnedAttach e p lnk

end Bpfman
