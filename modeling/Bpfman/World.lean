import Bpfman.Lib.Table
import Bpfman.Store
import Mathlib.Data.Finset.Basic

/-!
# The world the manager acts on

The store, the bpffs tree, the TC filters of the kernel and the bytecode directory, with the
primitives that read and change them.

A kernel program is an immutable value, so a pin, an outer link's target and a filter hold the
program itself. A primitive fails when the environment says so (`Env.fails`) or when its own
precondition does not hold in the state: a pin that exists, a missing pin, a violated constraint.
Every failed primitive is appended to `World.failed`. That log is not part of the program: it is
how a statement says which steps of an operation failed.
-/

namespace Bpfman

open Fallible Proc

/-! ## Kernel objects -/

structure XDPConfig where
  magic : Nat
  dispatcherVersion : Nat
  numProgsEnabled : Nat
  isXDPFrags : Nat
  chainCallActions : List Nat
  runPrios : List Nat
  programFlags : List Nat
  deriving DecidableEq, Repr

structure TCConfig where
  numProgsEnabled : Nat
  chainCallActions : List Nat
  runPrios : List Nat
  deriving DecidableEq, Repr

/-- The `.rodata` a dispatcher program was loaded with. -/
inductive Config where
  | xdp (c : XDPConfig)
  | tc (c : TCConfig)
  deriving DecidableEq, Repr

def Config.numProgsEnabled : Config → Nat
  | .xdp c => c.numProgsEnabled
  | .tc c => c.numProgsEnabled

def Config.chainCallActions : Config → List Nat
  | .xdp c => c.chainCallActions
  | .tc c => c.chainCallActions

/-- A program the kernel holds; `config` is that of a dispatcher program. -/
structure Prog where
  id : ProgramID
  config : Option Config
  deriving DecidableEq, Repr

/-- A kernel link that a pin keeps alive. -/
inductive Link where
  /-- The outer XDP link of an attach point and the program it runs. -/
  | outer (id : KernelLinkID) (key : Key) (target : Prog)
  /-- A freplace link: `prog` replaces slot `slot` of the dispatcher `target`. -/
  | extension (id : KernelLinkID) (target : Prog) (slot : Nat) (prog : Prog)
  /-- The link of a probe. -/
  | standalone (id : KernelLinkID)
  /-- The link of a program in the chain of a TCX hook. -/
  | tcx (id : KernelLinkID) (hook : TCXHook) (prog : Prog)
  deriving DecidableEq, Repr

/-- A TC filter of bpfman at an attach point. -/
structure Filter where
  key : Key
  priority : Nat
  handle : Nat
  prog : Prog
  deriving DecidableEq, Repr

/-! ## State and environment -/

/-- Everything an operation can change. -/
structure World where
  store : Store := {}
  progPins : List (ProgPinPath × Prog) := []
  linkPins : List (LinkPath × Link) := []
  mapPins : List (MapPinPath × MapID) := []
  dirs : Finset Dir := ∅
  filters : Finset Filter := ∅
  /-- The TCX links in the order the kernel runs them. A link is in the chain of its hook as long as
  its pin is there. -/
  tcxOrder : List LinkPath := []
  /-- The program directories under the bytecode base that are published. -/
  bytecode : Finset ProgramID := ∅
  /-- The primitives that failed so far, latest first. -/
  failed : List Call := []
  deriving DecidableEq

/-- What the world outside the manager decides during one operation. -/
structure Env where
  /-- Which primitives fail for a reason of their own. -/
  fails : Call → Bool
  /-- The id the kernel gives a dispatcher program, by the path it is pinned at. -/
  dispatcherID : ProgPinPath → ProgramID
  /-- The id the kernel gives a link, by the path it is pinned at. -/
  linkID : LinkPath → KernelLinkID
  /-- The handle the kernel gives a filter, by the program it runs. -/
  filterHandle : ProgPinPath → Nat
  /-- The id the kernel gives the `i`-th program of a batch. -/
  loadID : Nat → ProgramID
  /-- The id the kernel gives a map the `i`-th program of a batch creates. -/
  mapID : Nat → String → MapID
  /-- Whether the kernel still holds the program. -/
  live : ProgramID → Bool
  /-- The tracepoints tracefs lists, none where tracefs is not available. -/
  tracepoints : List String := []
  /-- The namespace a netns path names. -/
  nsid : String → Option Nat
  /-- Whether the netns path exists. -/
  netnsExists : String → Bool
  ifindex : String → String → Option Nat
  /-- The order the database returns member rows in. -/
  rowOrder : RowOrder
  /-- The wall clock, in the seconds timestamps are stored with. -/
  now : Nat

/-- Procedures on the world. -/
abbrev M := Proc World Err

/-- Record a failed primitive. -/
def World.fail (w : World) (c : Call) : World := { w with failed := c :: w.failed }

/-- A primitive: it fails when the environment says so or `f` does not apply, and changes the world
only when it succeeds. -/
def prim {α : Type} (e : Env) (c : Call) (f : World → Option (α × World)) : M α := fun w =>
  if e.fails c then .err (.call c) (w.fail c)
  else match f w with
    | some (a, w') => .ok a w'
    | none => .err (.call c) (w.fail c)

/-- A primitive that reports its failure as `err`. -/
def primErr {α : Type} (e : Env) (c : Call) (f : World → Except Err (α × World)) : M α := fun w =>
  if e.fails c then .err (.call c) (w.fail c)
  else match f w with
    | .ok (a, w') => .ok a w'
    | .error err => .err err (w.fail c)

/-- A store query. A row that is not there is an answer, not a failure of the store. -/
def query {α : Type} (e : Env) (c : Call) (f : Store → Except Err α) : M α := fun w =>
  if e.fails c then .err (.call c) (w.fail c)
  else match f w.store with
    | .ok a => .ok a w
    | .error err => .err err (if isNotFound err then w else w.fail c)

/-! ## The bpffs tree -/

namespace World

variable (w : World)

/-- The program pinned at `p`. -/
def prog? (p : ProgPinPath) : Option Prog := w.progPins.lookup p

/-- The link pinned at `p`. -/
def link? (p : LinkPath) : Option Link := w.linkPins.lookup p

/-- The map pinned at `p`. -/
def map? (p : MapPinPath) : Option MapID := w.mapPins.lookup p

def addProg (p : ProgPinPath) (x : Prog) : World :=
  { w with progPins := (p, x) :: w.progPins }

def addLink (p : LinkPath) (x : Link) : World :=
  { w with linkPins := (p, x) :: w.linkPins }

def addMap (p : MapPinPath) (x : MapID) : World :=
  { w with mapPins := (p, x) :: w.mapPins }

def eraseProg (p : ProgPinPath) : World :=
  { w with progPins := w.progPins.filter (·.1 ≠ p) }

def eraseLink (p : LinkPath) : World :=
  { w with linkPins := w.linkPins.filter (·.1 ≠ p) }

def eraseMap (p : MapPinPath) : World :=
  { w with mapPins := w.mapPins.filter (·.1 ≠ p) }

/-- Replace the link pinned at `p`. -/
def setLink (p : LinkPath) (x : Link) : World :=
  { w with linkPins := Table.set p x w.linkPins }

def addFilter (f : Filter) : World := { w with filters := insert f w.filters }

/-- Delete the filter of an attach point by priority and handle. -/
def deleteFilter (key : Key) (priority handle : Nat) : World :=
  { w with filters := w.filters.filter fun f =>
      ¬ (f.key = key ∧ f.priority = priority ∧ f.handle = handle) }

/-- The id of the program a link runs at `hook`. -/
def runsAt (hook : TCXHook) (p : LinkPath) : Option ProgramID :=
  match w.link? p with
  | some (.tcx _ h x) => if h = hook then some x.id else none
  | _ => none

/-- The chain of a TCX hook: the programs the kernel runs there, in order. -/
def tcxChain (hook : TCXHook) : List ProgramID := w.tcxOrder.filterMap (w.runsAt hook)

def mkdirAll (d : Dir) : World := { w with dirs := w.dirs ∪ d.chain.toFinset }

/-- Whether the directory has no entry. -/
def dirEmpty (d : Dir) : Bool :=
  w.progPins.all (·.1.parent ≠ d) && w.linkPins.all (·.1.parent ≠ d) &&
    w.mapPins.all (·.1.parent ≠ d) && decide (∀ x ∈ w.dirs, x.parent ≠ some d)

/-- `os.Remove` on a directory, which only removes an empty one. -/
def rmdir (d : Dir) : World :=
  if w.dirEmpty d then { w with dirs := w.dirs.erase d } else w

/-- `os.RemoveAll` on a directory of pins. -/
def removeAll (d : Dir) : World :=
  { w with
    progPins := w.progPins.filter (·.1.parent ≠ d)
    linkPins := w.linkPins.filter (·.1.parent ≠ d)
    mapPins := w.mapPins.filter (·.1.parent ≠ d)
    dirs := w.dirs.erase d }

end World

variable (e : Env)

def mkdirAll (d : Dir) : M Unit := prim e (.mkdirAll d) fun w => some ((), w.mkdirAll d)

/-- Best-effort `os.Remove` of a directory, its error dropped. -/
def rmdir (d : Dir) : M Unit :=
  ignore (prim e (.rmdir d) fun w => some ((), w.rmdir d))

/-- `RemoveDispatcherRevDir`, and `SafeRemoveAll` on a map directory. -/
def removeAll (d : Dir) : M Unit :=
  prim e (.removeAll d) fun w => some ((), w.removeAll d)

/-! ## Store calls -/

def getDispatcherSnapshot (key : Key) : M DispatcherSnapshot :=
  query e (.getDispatcherSnapshot key) fun s => s.getDispatcherSnapshot e.rowOrder key

/-- `ReplaceDispatcherSnapshot`, one transaction. -/
def replaceDispatcherSnapshot (spec : DispatcherSnapshotSpec) : M DispatcherSnapshot :=
  primErr e (.replaceDispatcherSnapshot spec.key spec.revision) fun w =>
    (w.store.replaceDispatcherSnapshot e.now spec).map fun (s, snap) =>
      (snap, { w with store := s })

/-- `DeleteDispatcherSnapshot`, one transaction. -/
def deleteDispatcherSnapshot (key : Key) : M Unit :=
  primErr e (.deleteDispatcherSnapshot key) fun w =>
    (w.store.deleteDispatcherSnapshot key).map fun s => ((), { w with store := s })

/-- `store.List`. -/
def listProgramsFromStore : M (List ProgramRecord) :=
  query e .listPrograms fun s => .ok s.listPrograms

/-- `store.Get`. -/
def getProgramFromStore (id : ProgramID) : M ProgramRecord :=
  query e (.getProgram id) fun s => s.getProgram id

/-- `store.GetLink`. -/
def getLinkFromStore (id : LinkID) : M LinkRecord :=
  query e (.getLink id) fun s => s.getLink id

def listLinks : M (List LinkRecord) := query e .listLinks fun s => s.listLinks

/-- `ListDispatcherSummaries`, without the number of members. -/
def listDispatcherSummaries : M (List DispatcherRow) :=
  query e .listDispatcherSummaries fun s => .ok s.dispatchers

def listTCXLinksByInterface (hook : TCXHook) : M (List TCXLinkInfo) :=
  query e (.listTCXLinks hook) fun s => s.listTCXLinksByInterface hook

def createLink (pin : LinkPath) (spec : LinkSpec) : M LinkRow :=
  primErr e (.createLink pin) fun w =>
    (w.store.createLink e.now spec).map fun (s, l) => (l, { w with store := s })

def createPendingLink (spec : LinkSpec) : M LinkRow :=
  primErr e (.createPendingLink spec.programID) fun w =>
    (w.store.createPendingLink e.now spec).map fun (s, l) => (l, { w with store := s })

def finaliseLink (id : LinkID) (kernelLinkID : KernelLinkID) : M LinkRow :=
  primErr e (.finaliseLink id) fun w =>
    (w.store.finaliseLink id kernelLinkID).map fun (s, l) => (l, { w with store := s })

def listLinksByProgram (id : ProgramID) : M (List LinkRecord) :=
  query e (.listLinksByProgram id) fun s => s.listLinksByProgram id

end Bpfman
