import Mathlib.Tactic.Common
import Mathlib.Data.Finset.Insert
import Mathlib.Data.String.Basic

/-!
# Identifiers, paths, calls and errors

The vocabulary shared by the store, the kernel adapter and the manager: the ids the kernel and the
store hand out, the dispatcher key, the bpffs layout, the primitive calls that can fail, and the
errors the manager returns.

A bpffs path is a structured value rather than a string. The three kinds of pin (`ProgPinPath`,
`LinkPath`, `MapPinPath`) are the three path types of the source, and `parent` is the directory
the layout puts the pin in.
-/

namespace Bpfman

abbrev ProgramID := Nat

/-- `kernel.LinkID`: the id of a kernel `bpf_link`. -/
abbrev KernelLinkID := Nat

abbrev MapID := Nat

/-- `bpfman.LinkID`: the handle the store allocates. -/
abbrev LinkID := Nat

/-- User labels, a `map[string]string` without duplicate keys. -/
abbrev Labels := List (String × String)

inductive TCDirection where
  | ingress | egress
  deriving DecidableEq, Repr

/-- `String`. -/
def TCDirection.text : TCDirection → String
  | .ingress => "ingress"
  | .egress => "egress"

inductive DispatcherType where
  | xdp | tcIngress | tcEgress
  deriving DecidableEq, Repr

def isTCDispatcherType : DispatcherType → Bool
  | .xdp => false
  | .tcIngress | .tcEgress => true

/-- The dispatcher type `attachTC` picks for a direction. -/
def TCDirection.dispatcherType : TCDirection → DispatcherType
  | .ingress => .tcIngress
  | .egress => .tcEgress

/-- `dispatcher.Key`: the attach point of a dispatcher. -/
structure Key where
  type : DispatcherType
  nsid : Nat
  ifindex : Nat
  deriving DecidableEq, Repr

/-- A TCX hook: a direction of an interface in a namespace. -/
structure TCXHook where
  direction : TCDirection
  nsid : Nat
  ifindex : Nat
  deriving DecidableEq, Repr

inductive LinkKind where
  | tracepoint | kprobe | kretprobe | uprobe | uretprobe | fentry | fexit | xdp | tc | tcx
  deriving DecidableEq, Repr

inductive ProgramType where
  | xdp | tc | tcx | tracepoint | kprobe | kretprobe | uprobe | uretprobe | fentry | fexit
  deriving DecidableEq, Repr

/-- The kind of link a dispatcher member is recorded as. -/
def DispatcherType.linkKind : DispatcherType → LinkKind
  | .xdp => .xdp
  | .tcIngress | .tcEgress => .tc

/-! ## The bpffs layout -/

/-- The directories of the bpffs tree. -/
inductive Dir where
  /-- `{bpffs}` -/
  | bpffs
  /-- `{bpffs}/{type}` -/
  | typeDir (t : DispatcherType)
  /-- `{bpffs}/{type}/dispatcher_{nsid}_{ifindex}_{revision}` -/
  | revision (key : Key) (revision : Nat)
  /-- `{bpffs}/maps` -/
  | maps
  /-- `{bpffs}/maps/{id}` -/
  | mapDir (id : ProgramID)
  /-- `{bpffs}/links` -/
  | links
  /-- `{bpffs}/tcx-{direction}` -/
  | tcx (direction : TCDirection)
  /-- `{bpffs}/shared` -/
  | shared
  deriving DecidableEq, Repr

/-- The directories `MkdirAll` makes sure of: `d` and the directories above it. -/
def Dir.chain : Dir → List Dir
  | .bpffs => [.bpffs]
  | .revision k r => [.bpffs, .typeDir k.type, .revision k r]
  | .mapDir id => [.bpffs, .maps, .mapDir id]
  | d => [.bpffs, d]

/-- The directory a directory is an entry of. -/
def Dir.parent : Dir → Option Dir
  | .bpffs => none
  | .revision k _ => some (.typeDir k.type)
  | .mapDir _ => some .maps
  | _ => some .bpffs

inductive ProgPinPath where
  /-- `{bpffs}/prog_{id}` -/
  | prog (id : ProgramID)
  /-- `DispatcherProgPath`: `{revision dir}/dispatcher` -/
  | dispatcher (key : Key) (revision : Nat)
  deriving DecidableEq, Repr

inductive LinkPath where
  /-- `DispatcherLinkPath`: `{bpffs}/{type}/dispatcher_{nsid}_{ifindex}_link` -/
  | dispatcherLink (key : Key)
  /-- `ExtensionLinkPath`: `{revision dir}/link_{position}` -/
  | extension (key : Key) (revision position : Nat)
  /-- `{bpffs}/links/{id}` -/
  | link (id : LinkID)
  /-- `{bpffs}/tcx-{direction}/link_{nsid}_{ifindex}_{program}` -/
  | tcx (direction : TCDirection) (nsid ifindex : Nat) (program : ProgramID)
  deriving DecidableEq, Repr

inductive MapPinPath where
  /-- `{bpffs}/maps/{id}/{name}` -/
  | map (set : ProgramID) (name : String)
  /-- `SharedMapPin`: `{bpffs}/shared/{name}` -/
  | shared (name : String)
  deriving DecidableEq, Repr

def ProgPinPath.parent : ProgPinPath → Dir
  | .prog _ => .bpffs
  | .dispatcher k r => .revision k r

def LinkPath.parent : LinkPath → Dir
  | .dispatcherLink k => .typeDir k.type
  | .extension k r _ => .revision k r
  | .link _ => .links
  | .tcx d _ _ _ => .tcx d

def MapPinPath.parent : MapPinPath → Dir
  | .map set _ => .mapDir set
  | .shared _ => .shared

/-! ## Primitive calls -/

/-- A primitive of the kernel, the bpffs mount, the bytecode directory or the store, together with
the arguments that tell two calls of one operation apart. A call that returns an error is recorded
under this name. -/
inductive Call where
  /-- Load the dispatcher object that is to be pinned at `path` (`NewCollection`, `Info`). -/
  | loadDispatcher (path : ProgPinPath)
  | mkdirAll (dir : Dir)
  | pinProg (path : ProgPinPath)
  | pinLink (path : LinkPath)
  | pinMap (path : MapPinPath)
  /-- Validate the spec, open both pins and `AttachFreplace` for the link to be pinned at `path`. -/
  | freplace (path : LinkPath)
  /-- `lnk.Info` on the link just pinned at `path`. -/
  | linkInfo (path : LinkPath)
  /-- `link.AttachXDP` for the outer link to be pinned at `path`. -/
  | attachXDP (path : LinkPath)
  | updateLink (link : LinkPath) (prog : ProgPinPath)
  /-- Ensure the clsact qdisc and add the filter that runs the program pinned at `prog`. -/
  | addFilter (prog : ProgPinPath)
  /-- Read the handle and the program info back after the filter is in place. -/
  | filterInfo (prog : ProgPinPath)
  | delFilter (key : Key) (priority handle : Nat)
  | removeProg (path : ProgPinPath)
  | removeLink (path : LinkPath)
  | removeMap (path : MapPinPath)
  | rmdir (dir : Dir)
  | removeAll (dir : Dir)
  | interfaceByName (ifname netns : String)
  | nsid (netns : String)
  | listTracepoints
  /-- Open the pinned program and attach it to its probe for the link to be pinned at `path`. -/
  | attachProbe (path : LinkPath)
  /-- Open the pinned program and `link.AttachTCX` for the link to be pinned at `path`. -/
  | attachTCX (path : LinkPath)
  /-- Look up a program the kernel holds. -/
  | getProgramByID (id : ProgramID)
  /-- Parse the object and resolve the program of the `i`-th spec of a batch. -/
  | loadSpec (i : Nat)
  | loadPinnedMap (path : MapPinPath)
  | newMap (name : String)
  /-- Load the collection of the `i`-th spec of a batch. -/
  | newCollection (i : Nat)
  /-- Read the map ids of the program just loaded. -/
  | progInfo (id : ProgramID)
  /-- Enumerate the programs the kernel holds. -/
  | kernelPrograms
  | publishBytecode (id : ProgramID)
  | removeBytecode (id : ProgramID)
  | getProgram (id : ProgramID)
  | listPrograms
  | saveProgram (id : ProgramID)
  | deleteProgram (id : ProgramID)
  | getLink (id : LinkID)
  | deleteLink (id : LinkID)
  | listLinksByProgram (id : ProgramID)
  | listLinks
  | listDispatcherSummaries
  | listTCXLinks (hook : TCXHook)
  /-- `CreateLink` of the link pinned at `path`. -/
  | createLink (path : LinkPath)
  | createPendingLink (id : ProgramID)
  | finaliseLink (id : LinkID)
  | getDispatcherSnapshot (key : Key)
  | replaceDispatcherSnapshot (key : Key) (revision : Nat)
  | deleteDispatcherSnapshot (key : Key)
  | countMapSetUsers (id : ProgramID)
  | mapSetExists (id : ProgramID)
  | deleteMapSet (id : ProgramID)
  | saveSharedMapPins (id : ProgramID)
  | deleteSharedMapPins (id : ProgramID)
  | commit
  deriving DecidableEq, Repr

/-! ## Errors -/

/-- The errors of the modelled functions. `wrap` is `fmt.Errorf("msg: %w", err)`. -/
inductive Err where
  /-- A primitive reported an error. -/
  | call (c : Call)
  /-- `platform.ErrRecordNotFound`. -/
  | recordNotFound
  | programNotFound (id : ProgramID)
  | programNotManaged (id : ProgramID)
  | linkNotFound (id : LinkID)
  /-- `platform.ErrMapOwnerNotFound`. -/
  | mapOwnerNotFound
  /-- `platform.ErrMapSetIDReused`. -/
  | mapSetIDReused
  | attachKindMismatch (id : ProgramID) (actual : ProgramType)
  /-- `bpfman.ErrTracepointNotFound`, without its suggestions. -/
  | tracepointNotFound (group name : String)
  | msg (text : String)
  | wrap (text : String) (cause : Err)
  | join (errs : List Err)
  deriving Repr

/-- `isNotFound`: whether the error wraps `platform.ErrRecordNotFound`. -/
def isNotFound : Err → Bool
  | .recordNotFound => true
  | .wrap _ cause => isNotFound cause
  | _ => false

end Bpfman
