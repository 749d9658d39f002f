import Bpfman.Bpffs
import Bpfman.Unload
import Mathlib.Data.Prod.Lex

/-!
# Inspection

`inspect/inspect.go` with `inspect/mapset.go` and the scans of `fs/scanner.go` it reads: the store,
the kernel and bpffs are listed and their rows are joined by id. The enumerations are given as the
items they yield; an item that is an error only goes to the meta data of the snapshot.

A Go map is the list of its entries. Where the source ranges over one, the order of that run is an
argument (`Ranges`), and so is what its sort does with equal elements (`SortFunc`).
-/

namespace Bpfman.Inspect

/-! ## What is read -/

/-- `kernel.Program`. -/
structure KernelProgram where
  id : ProgramID
  name : String
  deriving DecidableEq, Repr

/-- `kernel.Link`. -/
structure KernelLink where
  id : KernelLinkID
  programID : ProgramID
  deriving DecidableEq, Repr

structure DispatcherSummary where
  key : Key
  revision : Nat
  runtime : DispatcherRuntime
  memberCount : Nat
  deriving DecidableEq, Repr

/-- An entry of a dispatcher type directory, with the number of `link_*` files in it. -/
structure DirEntry where
  name : String
  isDir : Bool
  links : Nat
  deriving DecidableEq, Repr

structure DispatcherDir where
  key : Key
  revision : Nat
  linkCount : Nat
  deriving DecidableEq, Repr

/-- The three sources, with the primary keys and the column types of the store and the names of a
directory, which differ. -/
structure Observed where
  kernelPrograms : List KernelProgram
  kernelLinks : List KernelLink
  /-- The pins the walk of the mount could open as links, in its order. -/
  linkPins : List (KernelLinkID × String)
  progPins : List (ProgramID × String)
  mapDirs : List ProgramID
  typeDir : DispatcherType → List DirEntry
  names : ∀ t, ((typeDir t).map (·.name)).Nodup
  pathExists : LinkPath → Bool
  pathText : LinkPath → String
  programs : List ProgramRecord
  links : List LinkRecord
  dispatchers : List DispatcherSummary
  programIDs : (programs.map (·.programID)).Nodup
  linkIDs : (links.map (·.id)).Nodup
  linkIDs_pos : ∀ l ∈ links, l.id ≠ 0
  dispatcherKeys : (dispatchers.map (·.key)).Nodup
  fits : ∀ d ∈ dispatchers, d.key.nsid < 2 ^ 64 ∧ d.key.ifindex < 2 ^ 32 ∧ d.revision < 2 ^ 32

section Maps

variable {α κ : Type} [DecidableEq κ]

/-- The entries of a map that is assigned `l` in order. -/
def index (key : α → κ) (l : List α) : List α := l.pwFilter fun a b => key a ≠ key b

/-- The entry of a key in that map. -/
def lastOf? (key : α → κ) (l : List α) (k : κ) : Option α := l.reverse.find? fun a => key a = k

end Maps

/-- `slices.SortFunc` by a key: some sorted arrangement, found by comparing. -/
structure SortFunc {α κ : Type} [LinearOrder κ] (key : α → κ) where
  sort : List α → List α
  perm : ∀ l, (sort l).Perm l
  sorted : ∀ l, (sort l).Pairwise fun a b => key a ≤ key b
  natural : ∀ f : α → α, (∀ a, key (f a) = key a) → ∀ l, sort (l.map f) = (sort l).map f

/-! ## The rows -/

structure Presence where
  inStore : Bool
  inKernel : Bool
  inFS : Bool
  deriving DecidableEq, Repr

/-- `LinkRow`. -/
structure LinkView where
  managed : Option LinkRecord
  kernel : Option KernelLink
  fsPinPath : String
  presence : Presence
  deriving DecidableEq, Repr

/-- `ID`: a link the store does not know has none. -/
def LinkView.id (v : LinkView) : LinkID := (v.managed.map (·.id)).getD 0

structure ProgramView where
  programID : ProgramID
  managed : Option ProgramRecord
  kernel : Option KernelProgram
  fsPinPath : String
  mapsPresent : Bool
  links : List LinkView
  mapUsedBy : List ProgramID
  presence : Presence
  deriving DecidableEq, Repr

/-- `DispatcherRow`. -/
structure DispatcherView where
  key : Key
  managed : Option DispatcherSummary
  revision : Nat
  programID : ProgramID
  kernelLinkID : KernelLinkID
  priority : Nat
  progPresence : Presence
  linkPresence : Presence
  /-- −1 without a directory. -/
  fsLinkCount : Int
  deriving DecidableEq, Repr

/-- `String` of a dispatcher type. -/
def typeText : DispatcherType → String
  | .xdp => "xdp"
  | .tcIngress => "tc-ingress"
  | .tcEgress => "tc-egress"

/-- What dispatchers are sorted by: type, namespace, interface. -/
def DispatcherView.sortKey (v : DispatcherView) : String ×ₗ ℕ ×ₗ ℕ :=
  toLex (typeText v.key.type, toLex (v.key.nsid, v.key.ifindex))

/-! ## Map sets -/

/-- `mapSetID`: the owner of the maps, or the program itself. -/
def mapSetID (r : ProgramRecord) : ProgramID := r.mapOwnerID.getD r.programID

/-- `bySet`: the members of every set in the order they are met. -/
def bySet (records : List ProgramRecord) : List (ProgramID × List ProgramID) :=
  records.foldl (fun m r => (mapSetID r, (m.lookup (mapSetID r)).getD [] ++ [r.programID]) ::
    m.filter fun x => x.1 ≠ mapSetID r) []

/-- `MapSetMembers`, read at one program: the sorted ids of the programs of its map set. -/
def mapSetMembers (records : List ProgramRecord) (r : ProgramRecord) : List ProgramID :=
  (((bySet records).lookup (mapSetID r)).getD []).insertionSort (· ≤ ·)

def listMapSetUsers (s : Store) (id : ProgramID) : List ProgramID :=
  ((s.programs.filter (·.mapSetID = id)).map (·.programID)).insertionSort (· ≤ ·)

def fsProgram (pin : ProgramID × String) : ProgramView :=
  { programID := pin.1, managed := none, kernel := none, fsPinPath := pin.2, mapsPresent := false
    links := [], mapUsedBy := [], presence := ⟨false, false, true⟩ }

namespace Observed

variable (o : Observed)

def dispatcherDirs : List DispatcherDir :=
  [DispatcherType.xdp, .tcIngress, .tcEgress].flatMap fun t => (o.typeDir t).filterMap fun e =>
    if e.isDir then
      match parseDispatcherDirName e.name with
      | some [nsid, ifindex, revision] => some ⟨⟨t, nsid, ifindex⟩, revision, e.links⟩
      | _ => none
    else none

/-- The attach points of `DispatcherLinkPins`. -/
def dispatcherLinkPins : List Key :=
  [DispatcherType.xdp, .tcIngress, .tcEgress].flatMap fun t => (o.typeDir t).filterMap fun e =>
    if e.isDir then none
    else
      match parseDispatcherLinkName e.name with
      | some [nsid, ifindex] => some ⟨t, nsid, ifindex⟩
      | _ => none

/-! ## Programs -/

/-- The path of a program's pin, empty if it has none. -/
def pinPath (id : ProgramID) : String := ((lastOf? Prod.fst o.progPins id).map Prod.snd).getD ""

def storeProgram (p : ProgramRecord) : ProgramView :=
  let kernel := lastOf? (·.id) o.kernelPrograms p.programID
  { programID := p.programID, managed := some p, kernel, fsPinPath := o.pinPath p.programID
    mapsPresent := decide (p.programID ∈ o.mapDirs), links := []
    mapUsedBy := mapSetMembers o.programs p
    presence := ⟨true, kernel.isSome, (lastOf? Prod.fst o.progPins p.programID).isSome⟩ }

def kernelProgram (kp : KernelProgram) : ProgramView :=
  { programID := kp.id, managed := none, kernel := some kp, fsPinPath := o.pinPath kp.id
    mapsPresent := false, links := [], mapUsedBy := []
    presence := ⟨false, true, (lastOf? Prod.fst o.progPins kp.id).isSome⟩ }

/-- `seenProgIDs` after the programs of the store. -/
def stored (id : ProgramID) : Bool := o.programs.any (·.programID = id)

/-- `seenProgIDs` after those of the kernel. -/
def seen (id : ProgramID) : Bool := o.stored id || o.kernelPrograms.any (·.id = id)

/-! ## Links -/

def storeLink (l : LinkRecord) : LinkView :=
  let kernel := l.kernelLinkID.bind fun k => lastOf? (·.id) o.kernelLinks k
  let walked := l.kernelLinkID.bind fun k => o.linkPins.lookup k
  let recorded := (l.pinPath.filter o.pathExists).map o.pathText
  { managed := some l, kernel, fsPinPath := (walked.or recorded).getD ""
    presence := ⟨true, kernel.isSome, (walked.or recorded).isSome⟩ }

def kernelLink (kl : KernelLink) : LinkView :=
  { managed := none, kernel := some kl, fsPinPath := (o.linkPins.lookup kl.id).getD ""
    presence := ⟨false, true, (o.linkPins.lookup kl.id).isSome⟩ }

/-- Whether no link of the store records the kernel link. -/
def unrecorded (kl : KernelLink) : Bool := o.links.all (·.kernelLinkID ≠ some kl.id)

/-- The links only the kernel knows. -/
def kernelOnly : List KernelLink := (index (·.id) o.kernelLinks).filter o.unrecorded

/-! ## Dispatchers -/

def storeDispatcher (d : DispatcherSummary) : DispatcherView :=
  let dir := lastOf? (·.key) o.dispatcherDirs d.key
  let linkID := d.runtime.kernelLinkID.getD 0
  { key := d.key, managed := some d, revision := d.revision, programID := d.runtime.programID
    kernelLinkID := linkID, priority := d.runtime.filterPriority.getD 0
    fsLinkCount := dir.elim (-1) (·.linkCount)
    progPresence := ⟨true, o.kernelPrograms.any (·.id = d.runtime.programID), dir.isSome⟩
    linkPresence := ⟨linkID ≠ 0, linkID ≠ 0 && o.kernelLinks.any (·.id = linkID),
      decide (d.key ∈ o.dispatcherLinkPins)⟩ }

def orphanDispatcher (dir : DispatcherDir) : DispatcherView :=
  { key := dir.key, managed := none, revision := dir.revision, programID := 0, kernelLinkID := 0
    priority := 0, fsLinkCount := dir.linkCount, progPresence := ⟨false, false, true⟩
    linkPresence := ⟨false, false, decide (dir.key ∈ o.dispatcherLinkPins)⟩ }

end Observed

/-! ## The snapshot -/

/-- The orders in which one run goes through the maps. -/
structure Ranges (o : Observed) where
  programs : List ProgramRecord
  kernelPrograms : List KernelProgram
  progPins : List (ProgramID × String)
  kernelLinks : List KernelLink
  dispatcherDirs : List DispatcherDir
  programs_perm : programs.Perm o.programs
  kernelPrograms_perm : kernelPrograms.Perm (index (·.id) o.kernelPrograms)
  progPins_perm : progPins.Perm (index Prod.fst o.progPins)
  kernelLinks_perm : kernelLinks.Perm (index (·.id) o.kernelLinks)
  dispatcherDirs_perm : dispatcherDirs.Perm (index (·.key) o.dispatcherDirs)

/-- The sorts of the snapshot. -/
structure Sorts where
  programs : SortFunc ProgramView.programID
  links : SortFunc LinkView.id
  dispatchers : SortFunc DispatcherView.sortKey

structure Observation where
  programs : List ProgramView
  links : List LinkView
  dispatchers : List DispatcherView
  deriving DecidableEq, Repr

namespace Ranges

variable {o : Observed} (r : Ranges o)

def programViews : List ProgramView :=
  r.programs.map o.storeProgram ++
    ((r.kernelPrograms.filter fun kp => !o.stored kp.id).map o.kernelProgram ++
      (r.progPins.filter fun pin => !o.seen pin.1).map fsProgram)

def linkViews : List LinkView :=
  o.links.map o.storeLink ++ (r.kernelLinks.filter o.unrecorded).map o.kernelLink

def dispatcherViews : List DispatcherView :=
  o.dispatchers.map o.storeDispatcher ++
    (r.dispatcherDirs.filter fun dir => o.dispatchers.all (·.key ≠ dir.key)).map o.orphanDispatcher

end Ranges

def snapshot (S : Sorts) (o : Observed) (r : Ranges o) : Observation :=
  { programs := S.programs.sort <| r.programViews.map fun v =>
      { v with links := r.linkViews.filter (·.managed.map (·.programID) = some v.programID) }
    links := S.links.sort r.linkViews
    dispatchers := S.dispatchers.sort r.dispatcherViews }

end Bpfman.Inspect
