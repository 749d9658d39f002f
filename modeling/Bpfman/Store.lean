import Bpfman.ProceedOn
import Mathlib.Data.List.Sort

/-!
# The store

`platform/store/sqlite`: the tables as lists of rows, and the statements the manager runs on them.
A write that violates a constraint of the schema is an error and, since the manager's writes are
transactions, leaves the store as it was: each write below returns the new store or an error.

The two dispatcher detail tables are one list here. The key of a detail row says which table it is
in (`xdp` rows are `link_xdp_details`, the others `link_tc_details` with their direction), so the
unique index on the attach point and the position is a condition on `(key, position)` in both. The
row of another detail table is a part of its link row: it is inserted with the link row and goes
with it.
-/

namespace Bpfman

/-! ## Tables -/

/-- `managed_programs`, the columns the manager's lifecycle reads. -/
structure ProgramRow where
  programID : ProgramID
  programName : String
  programType : ProgramType
  pinPath : ProgPinPath
  mapSetID : ProgramID
  /-- Empty where the column is null. -/
  attachFunc : String := ""
  deriving DecidableEq, Repr

/-- `map_sets`. -/
structure MapSetRow where
  id : ProgramID
  pinPath : Dir
  deriving DecidableEq, Repr

/-- The details of the probe kinds: `bpfman.TracepointDetails`, `bpfman.KprobeDetails`,
`bpfman.UprobeDetails`, `bpfman.FentryDetails` and `bpfman.FexitDetails`, and the rows they are
stored in. -/
inductive ProbeDetails where
  | tracepoint (group name : String)
  | kprobe (fnName : String) (offset : Nat) (retprobe : Bool)
  | uprobe (target fnName : String) (offset pid containerPid : Nat) (retprobe : Bool)
  | fentry (fnName : String)
  | fexit (fnName : String)
  deriving DecidableEq, Repr

def ProbeDetails.kind : ProbeDetails → LinkKind
  | .tracepoint .. => .tracepoint
  | .kprobe _ _ retprobe => if retprobe then .kretprobe else .kprobe
  | .uprobe _ _ _ _ _ retprobe => if retprobe then .uretprobe else .uprobe
  | .fentry _ => .fentry
  | .fexit _ => .fexit

/-- The name of a kind's detail table in error texts. -/
def LinkKind.detailLabel : LinkKind → String
  | .tracepoint => "tracepoint"
  | .kprobe | .kretprobe => "kprobe"
  | .uprobe | .uretprobe => "uprobe"
  | .fentry => "fentry"
  | .fexit => "fexit"
  | .xdp => "xdp"
  | .tc => "tc"
  | .tcx => "tcx"

/-- `link_tcx_details`. -/
structure TCXRow where
  ifname : String
  hook : TCXHook
  priority : Int
  netns : String
  deriving DecidableEq, Repr

/-- The detail row of a link without a dispatcher. -/
inductive StandaloneRow where
  | probe (d : ProbeDetails)
  | tcx (r : TCXRow)
  deriving DecidableEq, Repr

/-- The kind a detail row is of. -/
def StandaloneRow.kind : StandaloneRow → LinkKind
  | .probe d => d.kind
  | .tcx _ => .tcx

/-- Whether the detail table of `kind` is the one that holds the row. -/
def StandaloneRow.serves (row : StandaloneRow) (kind : LinkKind) : Bool :=
  row.kind.detailLabel = kind.detailLabel

/-- `links`, with the detail row of a link without a dispatcher. -/
structure LinkRow where
  id : LinkID
  kind : LinkKind
  programID : ProgramID
  kernelLinkID : Option KernelLinkID
  pinPath : Option LinkPath
  metadata : Labels
  createdAt : Nat
  standalone : Option StandaloneRow := none
  deriving DecidableEq, Repr

/-- `link_xdp_details` and `link_tc_details`. -/
structure DetailRow where
  id : LinkID
  key : Key
  ifname : String
  priority : Nat
  position : Nat
  proceedOn : List Int
  netns : String
  dispatcherProgramID : ProgramID
  deriving DecidableEq, Repr

/-- `dispatchers`. -/
structure DispatcherRow where
  key : Key
  revision : Nat
  programID : ProgramID
  kernelLinkID : Option KernelLinkID
  priority : Option Nat
  filterHandle : Option Nat
  netns : String
  deriving DecidableEq, Repr

/-- `shared_map_pins`. -/
structure SharedMapPinRow where
  mapName : String
  programID : ProgramID
  deriving DecidableEq, Repr

/-- The database. `linkSeq` is the largest link id ever handed out (`AUTOINCREMENT`). -/
structure Store where
  programs : List ProgramRow := []
  mapSets : List MapSetRow := []
  links : List LinkRow := []
  details : List DetailRow := []
  dispatchers : List DispatcherRow := []
  sharedMapPins : List SharedMapPinRow := []
  linkSeq : Nat := 0
  deriving DecidableEq, Repr

/-! ## Records -/

/-- `bpfman.ProgramRecord`, the fields the manager's lifecycle reads. -/
structure ProgramRecord where
  programID : ProgramID
  name : String
  programType : ProgramType
  pinPath : ProgPinPath
  mapsDir : Dir
  /-- Nil when the program owns its map set. -/
  mapOwnerID : Option ProgramID
  attachFunc : String := ""
  deriving DecidableEq, Repr

/-- `bpfman.XDPDetails`, and `bpfman.TCDetails` without its direction. -/
structure DispatcherDetails where
  ifname : String
  ifindex : Nat
  /-- An `int32`. -/
  priority : Int
  position : Nat
  proceedOn : List Int
  netns : String
  nsid : Nat
  dispatcherID : ProgramID
  revision : Nat
  deriving DecidableEq, Repr

structure TCXDetails where
  ifname : String
  ifindex : Nat
  direction : TCDirection
  /-- An `int32`. -/
  priority : Int
  position : Nat
  netns : String
  nsid : Nat
  deriving DecidableEq, Repr

inductive LinkDetails where
  | xdp (d : DispatcherDetails)
  | tc (direction : TCDirection) (d : DispatcherDetails)
  | probe (d : ProbeDetails)
  | tcx (d : TCXDetails)
  deriving DecidableEq, Repr

structure LinkRecord where
  id : LinkID
  programID : ProgramID
  kernelLinkID : Option KernelLinkID
  kind : LinkKind
  pinPath : Option LinkPath
  details : Option LinkDetails
  createdAt : Nat
  metadata : Labels
  deriving DecidableEq, Repr

/-- `bpfman.LinkSpec`, for the kinds without a dispatcher. -/
structure LinkSpec where
  programID : ProgramID
  kernelLinkID : Option KernelLinkID
  kind : LinkKind
  pinPath : Option LinkPath
  details : StandaloneRow
  metadata : Labels
  deriving DecidableEq, Repr

structure TCXLinkInfo where
  linkID : LinkID
  kernelLinkID : KernelLinkID
  kernelProgramID : ProgramID
  /-- An `int32`. -/
  priority : Int
  deriving DecidableEq, Repr

structure DispatcherMember where
  programID : ProgramID
  programName : String
  progPinPath : ProgPinPath
  linkID : LinkID
  kernelLinkID : Option KernelLinkID
  linkPinPath : Option LinkPath
  position : Nat
  priority : Nat
  proceedOn : Nat
  ifname : String
  metadata : Labels
  deriving DecidableEq, Repr

structure DispatcherMemberSpec where
  existingLinkID : Option LinkID
  programID : ProgramID
  programName : String
  progPinPath : ProgPinPath
  kernelLinkID : Option KernelLinkID
  linkPinPath : Option LinkPath
  position : Nat
  priority : Nat
  proceedOn : Nat
  ifname : String
  metadata : Labels
  deriving DecidableEq, Repr

structure DispatcherRuntime where
  programID : ProgramID
  kernelLinkID : Option KernelLinkID
  filterPriority : Option Nat
  filterHandle : Option Nat
  netnsPath : String
  deriving DecidableEq, Repr

structure DispatcherSnapshot where
  key : Key
  revision : Nat
  runtime : DispatcherRuntime
  members : List DispatcherMember
  deriving DecidableEq, Repr

structure DispatcherSnapshotSpec where
  key : Key
  revision : Nat
  runtime : DispatcherRuntime
  members : List DispatcherMemberSpec
  deriving DecidableEq, Repr

/-! ## Reading programs and links -/

namespace Store

variable (s : Store)

/-- The record of a program row, joined with its map set. -/
def programRecord (p : ProgramRow) : Option ProgramRecord :=
  (s.mapSets.find? (·.id = p.mapSetID)).map fun ms =>
    { programID := p.programID, name := p.programName, programType := p.programType
      pinPath := p.pinPath, mapsDir := ms.pinPath
      mapOwnerID := if p.mapSetID = p.programID then none else some p.mapSetID
      attachFunc := p.attachFunc }

/-- `Get`. -/
def getProgram (id : ProgramID) : Except Err ProgramRecord :=
  match (s.programs.find? (·.programID = id)).bind s.programRecord with
  | some r => .ok r
  | none => .error (.wrap s!"program {id}" .recordNotFound)

/-- `List`. -/
def listPrograms : List ProgramRecord := s.programs.filterMap s.programRecord

/-- The details a detail row gives together with the dispatcher row it references. -/
def linkDetails (d : DetailRow) (disp : DispatcherRow) : LinkDetails :=
  let details : DispatcherDetails :=
    { ifname := d.ifname, ifindex := d.key.ifindex, priority := d.priority, position := d.position
      proceedOn := d.proceedOn, netns := d.netns, nsid := d.key.nsid
      dispatcherID := d.dispatcherProgramID, revision := disp.revision }
  match d.key.type with
  | .xdp => .xdp details
  | .tcIngress => .tc .ingress details
  | .tcEgress => .tc .egress details

/-- The `JOIN` of a detail row with the dispatcher it references. -/
def joinDispatcher (d : DetailRow) : Option LinkDetails :=
  (s.dispatchers.find? (·.programID = d.dispatcherProgramID)).map (linkDetails d)

/-- Whether the priority column scans into the `int32` of the link details. -/
def priorityScans (d : DetailRow) : Bool := d.priority < 2 ^ 31

/-- The base record of a link row. -/
def linkRecord (l : LinkRow) (details : Option LinkDetails) : LinkRecord :=
  { id := l.id, programID := l.programID, kernelLinkID := l.kernelLinkID, kind := l.kind
    pinPath := l.pinPath, details := details, createdAt := l.createdAt, metadata := l.metadata }

/-- The error for a missing detail row. -/
def detailsNotFound (kind : LinkKind) (id : LinkID) : Err :=
  .wrap s!"{kind.detailLabel} details for {id}" .recordNotFound

/-- `getLinkDetails` for the dispatcher-backed kinds. -/
def getLinkDetails (kind : LinkKind) (id : LinkID) : Except Err LinkDetails :=
  match s.details.find? fun d => d.id = id ∧ d.key.type.linkKind = kind with
  | none => .error (detailsNotFound kind id)
  | some d =>
    match s.joinDispatcher d with
    | none => .error (detailsNotFound kind id)
    | some details =>
      if priorityScans d then .ok details else .error (.msg "value out of range")

/-- Whether a number scans into an `int32`. -/
def int32Scans (n : Int) : Bool := -2 ^ 31 ≤ n && n < 2 ^ 31

/-- The rows of `link_tcx_details`, with their ids. -/
def tcxRows : List (LinkID × TCXRow) :=
  s.links.filterMap fun l => match l.standalone with
    | some (.tcx r) => some (l.id, r)
    | _ => none

/-- `ORDER BY td.priority ASC, l.id ASC`. -/
def tcxBefore (a b : LinkID × TCXRow) : Prop :=
  a.2.priority < b.2.priority ∨ (a.2.priority = b.2.priority ∧ a.1 < b.1)

instance : DecidableRel tcxBefore := fun a b => by
  unfold tcxBefore
  infer_instance

/-- The position of a TCX link: the number of links of its hook that come before it. -/
def tcxPosition (t : LinkID × TCXRow) : Nat :=
  s.tcxRows.countP fun t' => decide (t'.2.hook = t.2.hook ∧ tcxBefore t' t)

/-- The details of a TCX link. -/
def tcxDetails (id : LinkID) (r : TCXRow) : TCXDetails :=
  { ifname := r.ifname, ifindex := r.hook.ifindex, direction := r.hook.direction
    priority := r.priority, position := s.tcxPosition (id, r), netns := r.netns
    nsid := r.hook.nsid }

/-- `getLinkDetails` for the kinds without a dispatcher. -/
def getStandaloneDetails (l : LinkRow) : Except Err LinkDetails :=
  match l.standalone with
  | none => .error (detailsNotFound l.kind l.id)
  | some row =>
    if row.serves l.kind then
      match row with
      | .probe d => .ok (.probe d)
      | .tcx r =>
        if int32Scans r.priority then .ok (.tcx (s.tcxDetails l.id r))
        else .error (.msg "value out of range")
    else .error (detailsNotFound l.kind l.id)

def getLink (id : LinkID) : Except Err LinkRecord :=
  match s.links.find? (·.id = id) with
  | none => .error .recordNotFound
  | some l => do
    let details ← if l.kind = .xdp ∨ l.kind = .tc then s.getLinkDetails l.kind l.id
      else s.getStandaloneDetails l
    .ok (linkRecord l (some details))

/-- `populateLinkDetails` scans every row of the detail tables; one row that does not scan fails
the listing. -/
def detailsScan : Bool :=
  (s.details.all fun d => (s.joinDispatcher d).isNone || priorityScans d) &&
    s.tcxRows.all fun t => int32Scans t.2.priority

/-- The details a listing gives a link: those of the last detail table with a row for it. -/
def listDetails (l : LinkRow) : Option LinkDetails :=
  match l.standalone, (s.details.find? (·.id = l.id)).bind s.joinDispatcher with
  | some (.tcx r), _ => some (.tcx (s.tcxDetails l.id r))
  | _, some details => some details
  | some (.probe d), none => some (.probe d)
  | none, none => none

/-- `populateLinkDetails`, on the records of `rows`. -/
def populateLinkDetails (rows : List LinkRow) : Except Err (List LinkRecord) :=
  if rows.isEmpty then .ok []
  else if s.detailsScan then .ok (rows.map fun l => linkRecord l (s.listDetails l))
  else .error (.msg "scan details")

def listLinks : Except Err (List LinkRecord) := s.populateLinkDetails s.links

def listLinksByProgram (id : ProgramID) : Except Err (List LinkRecord) :=
  s.populateLinkDetails (s.links.filter (·.programID = id))

end Store

/-! ## Dispatcher snapshots -/

/-- A row of the member query: detail, link and program joined. -/
structure MemberRow where
  detail : DetailRow
  link : LinkRow
  program : ProgramRow
  deriving DecidableEq, Repr

/-- `ORDER BY d.priority ASC, p.program_name ASC`. -/
def MemberRow.le (a b : MemberRow) : Prop :=
  a.detail.priority < b.detail.priority ∨
    (a.detail.priority = b.detail.priority ∧ a.program.programName ≤ b.program.programName)

instance : DecidableRel MemberRow.le := fun a b => by
  unfold MemberRow.le
  infer_instance

/-- What SQL promises about the order of the member rows: a permutation of the rows, ascending by
priority and name. The order of rows that tie on both is not specified. -/
structure RowOrder where
  order : List MemberRow → List MemberRow
  perm : ∀ rows, (order rows).Perm rows
  sorted : ∀ rows, (order rows).Pairwise MemberRow.le

instance : Std.Total MemberRow.le := ⟨fun a b => by
  unfold MemberRow.le
  rcases Nat.lt_trichotomy a.detail.priority b.detail.priority with h | h | h
  · exact Or.inl (Or.inl h)
  · rcases le_total a.program.programName b.program.programName with hn | hn
    · exact Or.inl (Or.inr ⟨h, hn⟩)
    · exact Or.inr (Or.inr ⟨h.symm, hn⟩)
  · exact Or.inr (Or.inl h)⟩

instance : IsTrans MemberRow MemberRow.le := ⟨fun a b c h h' => by
  unfold MemberRow.le at *
  rcases h with h | ⟨h, hn⟩ <;> rcases h' with h' | ⟨h', hn'⟩
  · exact Or.inl (h.trans h')
  · exact Or.inl (h'  ▸ h)
  · exact Or.inl (h ▸ h')
  · exact Or.inr ⟨h.trans h', hn.trans hn'⟩⟩

/-- One order a database may return: ties stay in the order of the table. -/
def RowOrder.stable : RowOrder where
  order := List.insertionSort MemberRow.le
  perm := List.perm_insertionSort _
  sorted := List.pairwise_insertionSort _

namespace Store

variable (s : Store)

/-- The member row of a detail row, if both joins find a partner. -/
def memberRow (d : DetailRow) : Option MemberRow := do
  let l ← s.links.find? (·.id = d.id)
  let p ← s.programs.find? (·.programID = l.programID)
  some ⟨d, l, p⟩

/-- The member query of an attach point, before ordering. -/
def memberRows (key : Key) : List MemberRow :=
  (s.details.filter (·.key = key)).filterMap s.memberRow

/-- Decode one row of the member query. -/
def decodeMember (row : MemberRow) : Except Err DispatcherMember := do
  let mask ← proceedOnMask row.detail.key.type row.detail.proceedOn
  .ok { programID := row.link.programID, programName := row.program.programName
        progPinPath := row.program.pinPath, linkID := row.link.id
        kernelLinkID := row.link.kernelLinkID, linkPinPath := row.link.pinPath
        position := row.detail.position, priority := row.detail.priority, proceedOn := mask
        ifname := row.detail.ifname, metadata := row.link.metadata }

/-- `scanDispatcherRuntime`. -/
def dispatcherRuntime (d : DispatcherRow) : DispatcherRuntime :=
  { programID := d.programID, kernelLinkID := d.kernelLinkID, filterPriority := d.priority
    filterHandle := d.filterHandle, netnsPath := d.netns }

def getDispatcherSnapshot (ord : RowOrder) (key : Key) : Except Err DispatcherSnapshot :=
  match s.dispatchers.find? (·.key = key) with
  | none => .error (.wrap "dispatcher" .recordNotFound)
  | some d => do
    let members ← (ord.order (s.memberRows key)).mapM decodeMember
    .ok { key := key, revision := d.revision, runtime := dispatcherRuntime d, members := members }

/-- `DELETE FROM links WHERE id IN (…)`, with the cascade to the detail rows. -/
def deleteLinks (ids : List LinkID) : Store :=
  { s with
    links := s.links.filter (·.id ∉ ids)
    details := s.details.filter (·.id ∉ ids) }

/-- The links recorded at an attach point. -/
def attachPointLinks (key : Key) : List LinkID :=
  (s.details.filter (·.key = key)).map (·.id)

/-- The dispatcher row a snapshot asks for. -/
def dispatcherRow (spec : DispatcherSnapshotSpec) : DispatcherRow :=
  { key := spec.key, revision := spec.revision, programID := spec.runtime.programID
    kernelLinkID := spec.runtime.kernelLinkID, priority := spec.runtime.filterPriority
    filterHandle := spec.runtime.filterHandle, netns := spec.runtime.netnsPath }

/-- The `CHECK` constraints of the `dispatchers` table. -/
def dispatcherRowOK (d : DispatcherRow) : Bool :=
  1 ≤ d.revision &&
    match d.key.type with
    | .xdp => d.kernelLinkID.isSome && d.priority.isNone && d.filterHandle.isNone
    | .tcIngress | .tcEgress => d.kernelLinkID.isNone && d.priority.isSome && d.filterHandle.isSome

/-- Whether a detail row still references the dispatcher row at `key`: the foreign key that keeps
the row from being deleted or renumbered. -/
def dispatcherReferenced (key : Key) : Bool :=
  s.dispatchers.any fun d => d.key = key && s.details.any (·.dispatcherProgramID = d.programID)

/-- The upsert of the dispatcher row. -/
def upsertDispatcher (row : DispatcherRow) : Except Err Store :=
  if !dispatcherRowOK row ||
      s.dispatchers.any (fun d => d.key ≠ row.key && d.programID = row.programID) ||
      (s.dispatchers.all (fun d => d.programID ≠ row.programID) &&
        s.dispatcherReferenced row.key) then
    .error (.msg "upsert dispatcher")
  else
    .ok { s with dispatchers := s.dispatchers.filter (·.key ≠ row.key) ++ [row] }

/-- The link row of a member. -/
def memberLinkRow (now : Nat) (key : Key) (id : LinkID) (m : DispatcherMemberSpec) : LinkRow :=
  { id := id, kind := key.type.linkKind, programID := m.programID, kernelLinkID := m.kernelLinkID
    pinPath := m.linkPinPath, metadata := m.metadata, createdAt := now }

/-- The detail row of a member. -/
def memberDetailRow (key : Key) (rt : DispatcherRuntime) (id : LinkID) (codes : List Int)
    (m : DispatcherMemberSpec) : DetailRow :=
  { id := id, key := key, ifname := m.ifname, priority := m.priority, position := m.position
    proceedOn := codes, netns := rt.netnsPath, dispatcherProgramID := rt.programID }

/-- The member as the completed snapshot reports it. -/
def completedMember (id : LinkID) (m : DispatcherMemberSpec) : DispatcherMember :=
  { programID := m.programID, programName := m.programName, progPinPath := m.progPinPath
    linkID := id, kernelLinkID := m.kernelLinkID, linkPinPath := m.linkPinPath
    position := m.position, priority := m.priority, proceedOn := m.proceedOn, ifname := m.ifname
    metadata := m.metadata }

/-- The constraints of the `links` table on a new row. -/
def linkRowOK (l : LinkRow) : Bool :=
  s.links.all (fun r => r.id ≠ l.id &&
      (r.kernelLinkID.isNone || r.kernelLinkID ≠ l.kernelLinkID) &&
      (r.pinPath.isNone || r.pinPath ≠ l.pinPath)) &&
    s.programs.any (·.programID = l.programID)

/-- The constraints of the detail tables on a new row. -/
def detailRowOK (d : DetailRow) : Bool :=
  d.position ≤ 9 &&
    s.details.all (fun r => r.id ≠ d.id && !(r.key = d.key && r.position = d.position)) &&
    s.dispatchers.any (·.programID = d.dispatcherProgramID)

/-- Insert the link row and the detail row of one member. -/
def insertMember (now : Nat) (key : Key) (rt : DispatcherRuntime) (s : Store)
    (m : DispatcherMemberSpec) : Except Err (Store × DispatcherMember) := do
  let id := m.existingLinkID.getD (s.linkSeq + 1)
  let codes ← proceedOnActions key.type m.proceedOn
  let l := memberLinkRow now key id m
  let d := memberDetailRow key rt id codes m
  if linkRowOK s l && detailRowOK s d then
    .ok ({ s with links := s.links ++ [l], details := s.details ++ [d]
                  linkSeq := max s.linkSeq id }, completedMember id m)
  else .error (.msg "insert extension link")

/-- Insert the members in order. -/
def insertMembers (now : Nat) (key : Key) (rt : DispatcherRuntime) :
    Store → List DispatcherMemberSpec → Except Err (Store × List DispatcherMember)
  | s, [] => .ok (s, [])
  | s, m :: ms => do
    let (s₁, done) ← insertMember now key rt s m
    let (s₂, rest) ← insertMembers now key rt s₁ ms
    .ok (s₂, done :: rest)

/-- `ReplaceDispatcherSnapshot`: delete the rows of the attach point, upsert the dispatcher row,
insert the members. -/
def replaceDispatcherSnapshot (now : Nat) (s : Store) (spec : DispatcherSnapshotSpec) :
    Except Err (Store × DispatcherSnapshot) := do
  let s₁ := s.deleteLinks (s.attachPointLinks spec.key)
  let s₂ ← s₁.upsertDispatcher (dispatcherRow spec)
  let (s₃, members) ← insertMembers now spec.key spec.runtime s₂ spec.members
  .ok (s₃, { key := spec.key, revision := spec.revision, runtime := spec.runtime
             members := members })

def deleteDispatcherSnapshot (key : Key) : Except Err Store :=
  let s₁ := s.deleteLinks (s.attachPointLinks key)
  if s₁.dispatcherReferenced key then .error (.msg "delete dispatcher")
  else if s.dispatchers.any (·.key = key) then
    .ok { s₁ with dispatchers := s₁.dispatchers.filter (·.key ≠ key) }
  else .error (.wrap "dispatcher" .recordNotFound)

/-! ## Links without a dispatcher -/

/-- Whether the detail row can be inserted: an offset with its high bit set is no SQL integer, and a
negative priority violates the `CHECK` of its column. -/
def insertable : StandaloneRow → Bool
  | .probe (.kprobe _ offset _) => offset < 2 ^ 63
  | .probe (.uprobe _ _ offset _ _ _) => offset < 2 ^ 63
  | .probe _ => true
  | .tcx r => 0 ≤ r.priority

/-- The link row of a spec. -/
def newLinkRow (now : Nat) (s : Store) (spec : LinkSpec) : LinkRow :=
  { id := s.linkSeq + 1, kind := spec.kind, programID := spec.programID
    kernelLinkID := spec.kernelLinkID, pinPath := spec.pinPath, metadata := spec.metadata
    createdAt := now, standalone := some spec.details }

/-- `createLink`: the registry row and the detail row. -/
def createLink (now : Nat) (s : Store) (spec : LinkSpec) : Except Err (Store × LinkRow) :=
  let l := newLinkRow now s spec
  if spec.kind = .xdp ∨ spec.kind = .tc then
    .error (.msg
      s!"{spec.kind.detailLabel} links are dispatcher-backed; use ReplaceDispatcherSnapshot")
  else if !linkRowOK s l then .error (.msg "failed to insert link")
  else if !insertable spec.details then
    .error (.msg s!"failed to insert {spec.kind.detailLabel} details")
  else .ok ({ s with links := s.links ++ [l], linkSeq := l.id }, l)

/-- Whether no other link has the pin path. -/
def pinPathFree (id : LinkID) (pin : LinkPath) : Bool :=
  s.links.all fun l => l.id = id || l.pinPath ≠ some pin

def setLinkPinPath (id : LinkID) (pin : LinkPath) : Except Err Store :=
  if s.pinPathFree id pin then
    .ok { s with links := s.links.map fun l =>
      if l.id = id then { l with pinPath := some pin } else l }
  else .error (.msg "failed to set link pin path")

/-- A link as it is recorded before its attach. -/
def pendingSpec (spec : LinkSpec) : LinkSpec := { spec with pinPath := none, kernelLinkID := none }

/-- `CreatePendingLink`: the link is recorded with the pin path its id gives it, in one
transaction. -/
def createPendingLink (now : Nat) (s : Store) (spec : LinkSpec) : Except Err (Store × LinkRow) := do
  let (s₁, l) ← s.createLink now (pendingSpec spec)
  let s₂ ← s₁.setLinkPinPath l.id (.link l.id)
  .ok (s₂, { l with pinPath := some (.link l.id) })

/-- Whether no other link has the kernel link id. -/
def kernelLinkFree (id : LinkID) (kernelLinkID : KernelLinkID) : Bool :=
  s.links.all fun l => l.id = id || l.kernelLinkID ≠ some kernelLinkID

def finaliseLink (id : LinkID) (kernelLinkID : KernelLinkID) : Except Err (Store × LinkRow) :=
  match s.links.find? (·.id = id) with
  | none => .error (.wrap s!"link {id}" .recordNotFound)
  | some l =>
    if s.kernelLinkFree id kernelLinkID then
      .ok ({ s with links := s.links.map fun l =>
              if l.id = id then { l with kernelLinkID := some kernelLinkID } else l },
        { l with kernelLinkID := some kernelLinkID })
    else .error (.msg "failed to finalise link")

/-- A row of the TCX query; the kernel link id and the priority have to scan. -/
def tcxLinkInfo (l : LinkRow) (r : TCXRow) : Except Err TCXLinkInfo :=
  match l.kernelLinkID with
  | some k =>
    if int32Scans r.priority then .ok ⟨l.id, k, l.programID, r.priority⟩
    else .error (.msg "scan TCX link info")
  | none => .error (.msg "scan TCX link info")

/-- The links of a TCX hook, by priority and then by id. -/
def tcxLinks (hook : TCXHook) : List (LinkRow × TCXRow) :=
  (s.links.filterMap fun l => match l.standalone with
    | some (.tcx r) => if r.hook = hook then some (l, r) else none
    | _ => none).insertionSort fun a b => tcxBefore (a.1.id, a.2) (b.1.id, b.2)

def listTCXLinksByInterface (hook : TCXHook) : Except Err (List TCXLinkInfo) :=
  (s.tcxLinks hook).mapM fun t => tcxLinkInfo t.1 t.2

end Store

end Bpfman
