import Bpfman.Lib.Path
import Bpfman.Lib.Proc
import Mathlib.Algebra.Group.Int.Defs
import Mathlib.Data.List.Sort

/-!
# Requests of the volume driver

The two calls of the node service and the checks they make before they touch the host.
-/

namespace Bpfman.Csi

/-- The status codes the driver answers with. -/
inductive Code where
  | invalidArgument
  | notFound
  | alreadyExists
  | failedPrecondition
  | internal
  deriving DecidableEq, Repr

structure Status where
  code : Code
  message : String
  deriving DecidableEq, Repr

inductive AccessMode where
  | unknown
  | singleNodeWriter
  | singleNodeReaderOnly
  | multiNodeReaderOnly
  | multiNodeSingleWriter
  | multiNodeMultiWriter
  | singleNodeSingleWriter
  | singleNodeMultiWriter
  deriving DecidableEq, Repr

/-- `String` of a mode. -/
def AccessMode.text : AccessMode → String
  | unknown => "UNKNOWN"
  | singleNodeWriter => "SINGLE_NODE_WRITER"
  | singleNodeReaderOnly => "SINGLE_NODE_READER_ONLY"
  | multiNodeReaderOnly => "MULTI_NODE_READER_ONLY"
  | multiNodeSingleWriter => "MULTI_NODE_SINGLE_WRITER"
  | multiNodeMultiWriter => "MULTI_NODE_MULTI_WRITER"
  | singleNodeSingleWriter => "SINGLE_NODE_SINGLE_WRITER"
  | singleNodeMultiWriter => "SINGLE_NODE_MULTI_WRITER"

structure MountVolume where
  fsType : String
  mountFlags : List String
  volumeMountGroup : String
  deriving DecidableEq, Repr

inductive AccessType where
  | unset
  | block
  | mount (m : MountVolume)
  deriving DecidableEq, Repr

structure VolumeCapability where
  accessType : AccessType
  accessMode : AccessMode
  deriving DecidableEq, Repr

/-- A publish request; `program` and `maps` are the values of the two volume attributes, empty when
missing. -/
structure PublishRequest where
  volumeID : String
  targetPath : String
  program : String
  maps : String
  readonly : Bool
  capability : Option VolumeCapability
  deriving DecidableEq, Repr

structure UnpublishRequest where
  volumeID : String
  targetPath : String
  deriving DecidableEq, Repr

/-! ## Checks -/

def checkPathElement (kind value : String) : Except Status Unit :=
  if '/' ∈ value.toList ∨ value = "." ∨ value = ".." then
    .error ⟨.invalidArgument, s!"invalid {kind} {value.quote}: must be a single path element"⟩
  else .ok ()

def checkVolumeID (volumeID : String) : Except Status Unit :=
  if volumeID = "" then .error ⟨.invalidArgument, "volume ID is required"⟩
  else checkPathElement "volume ID" volumeID

def checkTargetPath (targetPath : String) : Except Status Unit :=
  if targetPath = "" then .error ⟨.invalidArgument, "target path is required"⟩
  else if ¬ Path.isAbs targetPath then
    .error ⟨.invalidArgument, s!"target path {targetPath.quote} must be absolute"⟩
  else if Path.clean targetPath = "/" then
    .error ⟨.invalidArgument, "target path must not be the filesystem root"⟩
  else .ok ()

def validateMapNames (names : List String) : Except Status Unit :=
  names.forM (checkPathElement "map name")

/-- Only a plain mount with a single-writer single-node access mode is served. -/
def validateVolumeCapability (vc : Option VolumeCapability) : Except Status Unit :=
  match vc with
  | none => .error ⟨.invalidArgument, "volume capability is required"⟩
  | some vc =>
    match vc.accessType with
    | .block => .error ⟨.invalidArgument, "block volumes are not supported"⟩
    | .unset => .error ⟨.invalidArgument, "volume capability must be a mount"⟩
    | .mount m =>
      if m.fsType ≠ "" then .error ⟨.invalidArgument, "fsType is not supported"⟩
      else if m.mountFlags ≠ [] then .error ⟨.invalidArgument, "mount flags are not supported"⟩
      else
        match vc.accessMode with
        | .singleNodeWriter => .ok ()
        | .singleNodeSingleWriter => .ok ()
        | mode => .error ⟨.invalidArgument, "unsupported access mode " ++ mode.text⟩

/-- White space as `strings.TrimSpace` has it. -/
def isSpace (c : Char) : Bool :=
  c.toNat ∈ [0x09, 0x0a, 0x0b, 0x0c, 0x0d, 0x20, 0x85, 0xa0, 0x1680, 0x2028, 0x2029, 0x202f, 0x205f,
    0x3000] || (0x2000 ≤ c.toNat && c.toNat ≤ 0x200a)

def trimSpace (s : List Char) : List Char :=
  ((s.dropWhile isSpace).reverse.dropWhile isSpace).reverse

/-- Drop empty names and those seen before. -/
def collectNames (names : List String) : List String → List String
  | [] => names
  | name :: rest =>
    if name = "" ∨ name ∈ names then collectNames names rest
    else collectNames (names ++ [name]) rest

/-- The names of a comma-separated list, in first-seen order. -/
def parseMapNames (s : String) : List String :=
  collectNames [] ((s.toList.splitOn ',').map fun name => String.ofList (trimSpace name))

/-- Whether two lists have the same elements, ignoring their order. -/
def equalStringSets (a b : List String) : Bool :=
  a.length = b.length ∧ a.insertionSort (· ≤ ·) = b.insertionSort (· ≤ ·)

/-- A decimal number with an optional sign that fits a 64-bit integer. -/
def atoi (s : String) : Option Int :=
  let digits (cs : List Char) : Option Nat :=
    if cs ≠ [] ∧ cs.all Char.isDigit then
      some (cs.foldl (fun n c => n * 10 + (c.toNat - '0'.toNat)) 0)
    else none
  let n : Option Int :=
    match s.toList with
    | '-' :: cs => (digits cs).map fun n => -(n : Int)
    | '+' :: cs => (digits cs).map Int.ofNat
    | cs => (digits cs).map Int.ofNat
  n.filter fun n => -(2 ^ 63) ≤ n ∧ n < 2 ^ 63

/-- The group the maps are handed to, `-1` for none. -/
def fsGroup (vc : Option VolumeCapability) : Int :=
  match vc with
  | some ⟨.mount m, _⟩ => (atoi m.volumeMountGroup).getD (-1)
  | _ => -1

/-- The checks of a publish request, and the maps it asks for. -/
def checkPublish (req : PublishRequest) : Except Status (List String) := do
  checkVolumeID req.volumeID
  checkTargetPath req.targetPath
  validateVolumeCapability req.capability
  if req.program = "" ∨ parseMapNames req.maps = [] then
    throw ⟨.invalidArgument,
      "csi.bpfman.io/program and at least one csi.bpfman.io/maps are required"⟩
  else
    validateMapNames (parseMapNames req.maps)
    return parseMapNames req.maps

/-! ## Map names -/

theorem equalStringSets_iff {a b : List String} : equalStringSets a b = true ↔ a.Perm b := by
  unfold equalStringSets
  rw [decide_eq_true_eq]
  constructor
  · rintro ⟨-, h⟩
    exact ((List.perm_insertionSort (· ≤ ·) a).symm.trans (h ▸ .refl _)).trans
      (List.perm_insertionSort (· ≤ ·) b)
  · intro h
    refine ⟨h.length_eq, ?_⟩
    have hp := ((List.perm_insertionSort (· ≤ ·) a).trans h).trans
      (List.perm_insertionSort (· ≤ ·) b).symm
    exact hp.eq_of_pairwise' (List.pairwise_insertionSort (· ≤ ·) a)
      (List.pairwise_insertionSort (· ≤ ·) b)

theorem checkPublish_eq_ok {req : PublishRequest} {maps : List String}
    (h : checkPublish req = .ok maps) : maps = parseMapNames req.maps := by
  obtain ⟨_, -, h⟩ := Fallible.Proc.except_bind_eq_ok.mp h
  obtain ⟨_, -, h⟩ := Fallible.Proc.except_bind_eq_ok.mp h
  obtain ⟨_, -, h⟩ := Fallible.Proc.except_bind_eq_ok.mp h
  split_ifs at h
  obtain ⟨_, -, h⟩ := Fallible.Proc.except_bind_eq_ok.mp h
  exact (Except.ok.inj h).symm

end Bpfman.Csi
