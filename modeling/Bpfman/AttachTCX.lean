import Bpfman.AttachSimple

/-!
# Attaching to a TCX hook

`manager/attach_tc.go`: the kernel keeps the chain of a TCX hook, and an attach tells it which
program of the chain to put the new one before or after.
-/

namespace Bpfman

open Fallible Proc

structure TCXAttachSpec where
  programID : ProgramID
  ifname : String
  direction : TCDirection
  priority : Nat
  netns : String := ""
  metadata : Labels := []
  programID_ne : programID ≠ 0
  ifname_ne : ifname ≠ ""
  deriving DecidableEq, Repr

variable (e : Env)

/-- `GetProgramByID` as `attachTCX` uses it: only a lookup that finds no program says that the
program is gone. -/
def isLive (id : ProgramID) : M Bool := fun w =>
  if e.fails (.getProgramByID id) then .ok true (w.fail (.getProgramByID id)) else .ok (e.live id) w

/-- `filterLiveTCXLinks`; `checked` are the programs that were looked up. -/
def filterLiveTCXLinks (e : Env) : List TCXLinkInfo → List (ProgramID × Bool) → M (List TCXLinkInfo)
  | [], _ => pure []
  | l :: ls, checked => do
    let ok ← match checked.lookup l.kernelProgramID with
      | some ok => pure ok
      | none => isLive e l.kernelProgramID
    let rest ← filterLiveTCXLinks e ls ((l.kernelProgramID, ok) :: checked)
    pure (if ok then l :: rest else rest)

def computeTCXAttachOrder (links : List TCXLinkInfo) (priority : Int) : TCXAttachOrder :=
  match links.getLast? with
  | none => { first := true }
  | some last =>
    match links.find? (priority < ·.priority) with
    | some l => { beforeProgID := l.kernelProgramID }
    | none => { afterProgID := last.kernelProgramID }

/-- The details `attachTCXPlan` gives a link, without the position. -/
def TCXAttachSpec.row (spec : TCXAttachSpec) (hook : TCXHook) : TCXRow :=
  { ifname := spec.ifname, hook := hook, priority := toInt32 spec.priority, netns := spec.netns }

/-- The bindings of a TCX attach plan. -/
structure TCXBindings where
  out : Option KernelLinkID := none
  link : Option LinkRecord := none

def TCXAttachSpec.linkSpec (spec : TCXAttachSpec) (hook : TCXHook) (pin : LinkPath)
    (out : KernelLinkID) : LinkSpec :=
  { programID := spec.programID, kernelLinkID := some out, kind := .tcx, pinPath := some pin
    details := .tcx (spec.row hook), metadata := spec.metadata }

/-- The record of a TCX link that was just created; its position is not computed. -/
def tcxRecord (l : LinkRow) (r : TCXRow) : LinkRecord :=
  Store.linkRecord l (some (.tcx
    { ifname := r.ifname, ifindex := r.hook.ifindex, direction := r.hook.direction
      priority := r.priority, position := 0, netns := r.netns, nsid := r.hook.nsid }))

/-- `attachTCXPlan`: attach and pin, then record the link. -/
def attachTCXPlan (spec : TCXAttachSpec) (hook : TCXHook) (pin : LinkPath)
    (prog : ProgPinPath) (order : TCXAttachOrder) : List (Node TCXBindings) :=
  [{ flavour := .produceNode
     exec := fun b => do
       let out ← kernelAttachTCX e hook prog pin spec.netns order
       pure { b with out := some out }
     undo := fun _ => [detachLink e pin] },
   { flavour := .produceNode
     exec := fun b => do
       let out ← bound b.out
       let l ← mapErr (.wrap "save link metadata")
         (createLink e pin (spec.linkSpec hook pin out))
       pure { b with link := some (tcxRecord l (spec.row hook)) } }]

/-- What `attachTCX` does once the hook and the links of it are known. -/
def attachTCXAt (spec : TCXAttachSpec) (prog : ProgramRecord) (hook : TCXHook)
    (existing : List TCXLinkInfo) : M LinkRecord :=
  match existing.find? (·.kernelProgramID = spec.programID) with
  | some l => fail (.msg (s!"program {spec.programID} is already attached to {spec.ifname} " ++
      s!"{spec.direction.text} as link {l.linkID}; detach it first"))
  | none => do
    let pin := tcxLinkPath hook spec.programID
    mapErr (.wrap "detach stale TCX link") (detachLink e pin)
    let live ← filterLiveTCXLinks e existing []
    let order := computeTCXAttachOrder live (toInt32 spec.priority)
    let b ← runPlan (attachTCXPlan e spec hook pin prog.pinPath order) {}
    bound b.link

def attachTCX (spec : TCXAttachSpec) : M LinkRecord := do
  let ifindex ← interfaceByName e spec.ifname spec.netns
  let prog ← getProgram e spec.programID
  let nsid ← mapErr (.wrap "get nsid") (netnsNSID e spec.netns)
  let hook : TCXHook := ⟨spec.direction, nsid, ifindex⟩
  let existing ← mapErr (.wrap "list existing TCX links") (listTCXLinksByInterface e hook)
  attachTCXAt e spec prog hook existing

/-- `bpfman.AttachSpec`. -/
inductive AnyAttachSpec where
  | dispatcher (spec : AttachSpec)
  | tcx (spec : TCXAttachSpec)
  | probe (spec : ProbeAttachSpec)
  deriving DecidableEq, Repr

/-- `ValidateAttachProgramType` for the kinds without a dispatcher. -/
def validateStandalone (id : ProgramID) (accepts : List ProgramType) (type : ProgramType) :
    Except Err Unit :=
  if type ∈ accepts then .ok () else .error (.attachKindMismatch id type)

/-- `Attach` of the manager, for every kind of spec. -/
def attachAny (scope : Bool) : AnyAttachSpec → M LinkRecord
  | .dispatcher spec => attach e spec
  | .tcx spec => do
    let prog ← getProgram e spec.programID
    lift (validateStandalone spec.programID [.tcx] prog.programType)
    attachTCX e spec
  | .probe spec => do
    let prog ← getProgram e spec.programID
    lift (validateStandalone spec.programID spec.target.accepts prog.programType)
    simpleAttach e scope spec

end Bpfman
