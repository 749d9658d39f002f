import Bpfman.Executor
import Bpfman.Operation

/-!
# Attach and detach

`manager/attach*.go`, `manager/detach.go`: the manager's entry points for XDP and TC links.
-/

namespace Bpfman

open Fallible Proc

/-! ## Lookup -/

variable (e : Env)

def getProgram (id : ProgramID) : M ProgramRecord :=
  mapErr (fun err => if isNotFound err then .programNotFound id
    else .wrap s!"get program {id}" err) (getProgramFromStore e id)

def getLink (id : LinkID) : M LinkRecord :=
  mapErr (fun err => if isNotFound err then .linkNotFound id
    else .wrap s!"get link {id}" err) (getLinkFromStore e id)

/-! ## Attach -/

/-- `bpfman.XDPAttachSpec`, and `bpfman.TCAttachSpec` without its direction. -/
structure DispatcherAttachSpec where
  programID : ProgramID
  ifname : String
  netns : String
  priority : Nat
  proceedOn : List Int
  metadata : Labels
  deriving DecidableEq, Repr

/-- `bpfman.AttachSpec`, the two kinds that go through a dispatcher. -/
inductive AttachSpec where
  | xdp (spec : DispatcherAttachSpec)
  | tc (direction : TCDirection) (spec : DispatcherAttachSpec)
  deriving DecidableEq, Repr

def AttachSpec.spec : AttachSpec → DispatcherAttachSpec
  | .xdp s => s
  | .tc _ s => s

/-- The type of dispatcher an attach goes through. -/
def AttachSpec.dispatcherType : AttachSpec → DispatcherType
  | .xdp _ => .xdp
  | .tc d _ => d.dispatcherType

/-- `attachVerb`: the program types the attach verb drives. -/
def AttachSpec.accepts : AttachSpec → List ProgramType
  | .xdp _ => [.xdp]
  | .tc _ _ => [.tc]

def validateAttachProgramType (spec : AttachSpec) (type : ProgramType) : Except Err Unit :=
  if type ∈ spec.accepts then .ok ()
  else .error (.attachKindMismatch spec.spec.programID type)

/-- The default proceed-on set of an attach that names none. -/
def AttachSpec.defaultProceedOn : AttachSpec → List Int
  | .xdp _ => [2, 31]
  | .tc _ _ => [3, 30]

/-- The codes an attach encodes. -/
def AttachSpec.proceedOn (spec : AttachSpec) : List Int :=
  if spec.spec.proceedOn.isEmpty then spec.defaultProceedOn else spec.spec.proceedOn

def interfaceByName (ifname netns : String) : M Nat :=
  prim e (.interfaceByName ifname netns) fun w => (e.ifindex ifname netns).map fun i => (i, w)

/-- The rebuild arguments of an attach, once its program record is read. -/
def rebuildArgs (spec : DispatcherAttachSpec) (ifindex mask : Nat) (prog : ProgramRecord) :
    RebuildArgs :=
  { programID := spec.programID, ifindex := ifindex, ifname := spec.ifname
    netnsPath := spec.netns, progPinPath := prog.pinPath, programName := prog.name
    priority := spec.priority, proceedOn := mask, metadata := spec.metadata }

/-- The rebuild action of an attach. -/
def rebuildAction : AttachSpec → RebuildArgs → M ExtensionResult
  | .xdp _, a => rebuildXDPDispatcher e a
  | .tc d _, a => rebuildTCDispatcher e d a

/-- The bindings of a dispatcher attach plan. -/
structure AttachBindings where
  prog : Option ProgramRecord := none
  ext : Option ExtensionResult := none

/-- `dispatcherAttachPlan`: fetch the program record, rebuild the dispatcher. -/
def dispatcherAttachPlan (id : ProgramID) (rebuild : ProgramRecord → M ExtensionResult) :
    List (Node AttachBindings) :=
  [{ flavour := .produceNode
     exec := fun b => do
       let prog ← getProgramFromStore e id
       pure { b with prog := some prog } },
   { flavour := .produceNode
     exec := fun b => do
       match b.prog with
       | some prog => do
         let r ← rebuild prog
         pure { b with ext := some r }
       | none => fail (.msg "missing binding")
     undo := fun b => match b.ext with
       | some r => [detachLink e r.pinPath]
       | none => [] }]

def dispatcherAttach (id : ProgramID) (rebuild : ProgramRecord → M ExtensionResult) :
    M LinkRecord := do
  let b ← runPlan (dispatcherAttachPlan e id rebuild) {}
  match b.ext with
  | some r => pure r.link
  | none => fail (.msg "missing binding")

/-- The mask of an attach; only `attachTC` wraps the error. -/
def encodeProceedOn (spec : AttachSpec) : M Nat :=
  let mask := lift (proceedOnMask spec.dispatcherType spec.proceedOn)
  match spec with
  | .xdp _ => mask
  | .tc _ _ => mapErr (.wrap "encode TC proceed-on") mask

/-- `attachXDP` and `attachTC`. -/
def attachDispatcher (spec : AttachSpec) : M LinkRecord := do
  let ifindex ← interfaceByName e spec.spec.ifname spec.spec.netns
  let mask ← encodeProceedOn spec
  dispatcherAttach e spec.spec.programID fun prog =>
    rebuildAction e spec (rebuildArgs spec.spec ifindex mask prog)

def attach (spec : AttachSpec) : M LinkRecord := do
  let prog ← getProgram e spec.spec.programID
  lift (validateAttachProgramType spec prog.programType)
  attachDispatcher e spec

/-! ## Detach -/

def extractDispatcherKey : Option LinkDetails → Option Key
  | some (.xdp d) => some ⟨.xdp, d.nsid, d.ifindex⟩
  | some (.tc dir d) => some ⟨dir.dispatcherType, d.nsid, d.ifindex⟩
  | _ => none

/-- `DeleteLink`; a dispatcher-backed link is refused. -/
def Store.deleteLink (s : Store) (id : LinkID) : Except Err Store :=
  match s.links.find? (·.id = id) with
  | none => .error (.wrap s!"link {id}" .recordNotFound)
  | some l =>
    if l.kind = .xdp ∨ l.kind = .tc then .error (.msg s!"link {id} is dispatcher-backed")
    else .ok (s.deleteLinks [id])

def deleteLink (id : LinkID) : M Unit :=
  primErr e (.deleteLink id) fun w =>
    (w.store.deleteLink id).map fun s => ((), { w with store := s })

/-- The second node of `detachPlan`. -/
def detachStoreAction (id : LinkID) : Option Key → M Unit
  | some key => rebuildDispatcherForDetach e key id
  | none => deleteLink e id

def detachPlan (record : LinkRecord) (key : Option Key) : List (Node Unit) :=
  (match record.pinPath with
    | some pin => [{ flavour := .doNode, exec := fun _ => detachLink e pin }]
    | none => []) ++
  [{ flavour := .doNode, exec := fun _ => detachStoreAction e record.id key }]

/-- The key `Detach` rebuilds, for the dispatcher-backed kinds. -/
def dispatcherKey (record : LinkRecord) : Option Key :=
  if record.kind = .xdp ∨ record.kind = .tc then extractDispatcherKey record.details else none

def detach (id : LinkID) : M Unit := do
  let record ← getLink e id
  runPlan (detachPlan e record (dispatcherKey record)) ()

theorem runPlan_detachPlan (e : Env) (r : LinkRecord) (key : Option Key) :
    runPlan (detachPlan e r key) () = (do
      match r.pinPath with
      | some pin => detachLink e pin
      | none => pure ()
      detachStoreAction e r.id key) := by
  unfold detachPlan
  cases r.pinPath with
  | none => exact runPlan_single _ (by simp) ()
  | some pin => exact runPlan_pair _ _ (by simp) (by simp) (fun _ => rfl) ()

theorem dispatcherAttach_eq (e : Env) (id : ProgramID)
    (rebuild : ProgramRecord → M ExtensionResult) :
    dispatcherAttach e id rebuild = (do
      let prog ← getProgramFromStore e id
      let r ← rebuild prog
      pure r.link) := by
  funext w
  unfold dispatcherAttach dispatcherAttachPlan
  rw [runPlan_pair _ _ (by simp) (by simp) (fun _ => rfl)]
  simp only [bind_apply]
  cases getProgramFromStore e id w with
  | err err w' => rfl
  | ok prog w' =>
    simp only [pure_apply, bind_apply]
    cases rebuild prog w' <;> rfl

end Bpfman
