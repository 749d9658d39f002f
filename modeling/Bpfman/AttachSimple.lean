import Bpfman.Manager

/-!
# Attaching probes

`manager/attach_simple.go`, `manager/attach_tracing.go`: the attach of a tracepoint, kprobe, uprobe,
fentry or fexit program. The link is recorded with the path it is going to be pinned at before the
kernel attaches it.
-/

namespace Bpfman

open Fallible Proc

/-- What a probe is attached to: the fields of `bpfman.TracepointAttachSpec`,
`bpfman.KprobeAttachSpec`, `bpfman.UprobeAttachSpec`, `bpfman.FentryAttachSpec` and
`bpfman.FexitAttachSpec`. -/
inductive ProbeTarget where
  | tracepoint (group name : String)
  | kprobe (fnName : String) (offset : Nat)
  | uprobe (target fnName : String) (offset pid containerPid : Nat)
  | fentry
  | fexit
  deriving DecidableEq, Repr

/-- The attach spec of a probe. -/
structure ProbeAttachSpec where
  programID : ProgramID
  target : ProbeTarget
  metadata : Labels
  deriving DecidableEq, Repr

/-- `attachVerb`: the program types the attach verb drives. -/
def ProbeTarget.accepts : ProbeTarget → List ProgramType
  | .tracepoint .. => [.tracepoint]
  | .kprobe .. => [.kprobe, .kretprobe]
  | .uprobe .. => [.uprobe, .uretprobe]
  | .fentry => [.fentry]
  | .fexit => [.fexit]

/-- `validateTracepointExists`, on the tracepoints that are listed. -/
def tracepointExists (tps : List String) (group name : String) : Except Err Unit :=
  if tps = [] ∨ group ++ "/" ++ name ∈ tps then .ok () else .error (.tracepointNotFound group name)

def isAbs (path : String) : Bool := path.toList.head? = some '/'

/-- What a uprobe spec has to meet. `scope` tells whether the caller holds the writer lock. -/
def validUprobe (scope : Bool) (target fnName : String) (offset containerPid : Nat) :
    Except Err Unit :=
  if fnName = "" ∧ offset = 0 then
    .error (.msg "uprobe attach requires a function name or a non-zero offset")
  else if containerPid > 0 ∧ !isAbs target then
    .error (.msg (s!"container uprobe target must be an absolute path (got \"{target}\"; " ++
      "library-name resolution is not supported inside containers)"))
  else if containerPid > 0 ∧ !scope then
    .error (.msg s!"container uprobe requires lock scope (containerPid={containerPid})")
  else .ok ()

/-- The function a program of kind `kind` was loaded for. -/
def attachFunc (prog : ProgramRecord) (kind : String) : Except Err String :=
  if prog.attachFunc = "" then
    .error (.msg (s!"program {prog.programID} has no attach function " ++
      s!"({kind} requires attach function at load time)"))
  else .ok prog.attachFunc

/-- The `prepare` closures, once the tracepoints are listed. -/
def probeDetails (scope : Bool) (tps : List String) (prog : ProgramRecord) :
    ProbeTarget → Except Err ProbeDetails
  | .tracepoint group name => do
    tracepointExists tps group name
    .ok (.tracepoint group name)
  | .kprobe fnName offset => .ok (.kprobe fnName offset (prog.programType = .kretprobe))
  | .uprobe target fnName offset pid containerPid => do
    validUprobe scope target fnName offset containerPid
    .ok (.uprobe target fnName offset pid containerPid (prog.programType = .uretprobe))
  | .fentry => return .fentry (← attachFunc prog "fentry")
  | .fexit => return .fexit (← attachFunc prog "fexit")

variable (e : Env)

/-- `ListTracepoints`, which only a tracepoint attach calls. -/
def listTracepoints : ProbeTarget → M (List String)
  | .tracepoint .. => mapErr (.wrap "list tracepoints")
    (prim e .listTracepoints fun w => some (e.tracepoints, w))
  | _ => pure []

def ProbeTarget.attach (target : ProbeTarget) (prog : ProgPinPath) (pin : LinkPath) :
    M KernelLinkID :=
  match target with
  | .uprobe .. => attachUprobe e prog pin
  | _ => attachProbe e prog pin

/-- The bindings of a simple attach plan. -/
structure SimpleBindings where
  details : Option ProbeDetails := none
  pending : Option LinkRow := none
  out : Option KernelLinkID := none
  link : Option LinkRecord := none

/-- A binding of an earlier node. -/
def bound {α : Type} : Option α → M α
  | some a => pure a
  | none => fail (.msg "missing binding")

def ProbeAttachSpec.linkSpec (spec : ProbeAttachSpec) (details : ProbeDetails) : LinkSpec :=
  { programID := spec.programID, kernelLinkID := none, kind := details.kind, pinPath := none
    details := .probe details, metadata := spec.metadata }

/-- The first node: fetch the program record, run `prepare`. -/
def prepareNode (scope : Bool) (spec : ProbeAttachSpec) : Node SimpleBindings where
  flavour := .produceNode
  exec b := do
    let prog ← getProgram e spec.programID
    let tps ← listTracepoints e spec.target
    let details ← lift (probeDetails scope tps prog spec.target)
    pure { b with details := some details }

/-- The second node: record the link. -/
def pendingNode (spec : ProbeAttachSpec) : Node SimpleBindings where
  flavour := .produceNode
  exec b := do
    let details ← bound b.details
    let l ← createPendingLink e (spec.linkSpec details)
    pure { b with pending := some l }
  undo b := (b.pending.map fun l => deleteLink e l.id).toList

/-- The third node: attach and pin at the recorded path. -/
def attachNode (spec : ProbeAttachSpec) : Node SimpleBindings where
  flavour := .produceNode
  exec b := do
    let l ← bound b.pending
    let pin ← bound l.pinPath
    let out ← spec.target.attach e (.prog spec.programID) pin
    pure { b with out := some out }
  undo b := ((b.pending.bind (·.pinPath)).map fun pin => detachLink e pin).toList

/-- The fourth node: record the kernel link. -/
def finaliseNode : Node SimpleBindings where
  flavour := .produceNode
  exec b := do
    let details ← bound b.details
    let l ← bound b.pending
    let out ← bound b.out
    let l' ← mapErr (.wrap "save link metadata") (finaliseLink e l.id out)
    pure { b with link := some (Store.linkRecord l' (some (.probe details))) }

def simpleAttachPlan (scope : Bool) (spec : ProbeAttachSpec) : List (Node SimpleBindings) :=
  [prepareNode e scope spec, pendingNode e spec, attachNode e spec, finaliseNode e]

def simpleAttach (scope : Bool) (spec : ProbeAttachSpec) : M LinkRecord := do
  let b ← runPlan (simpleAttachPlan e scope spec) {}
  bound b.link

end Bpfman
