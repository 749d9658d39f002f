import Bpfman.Image.Extract
import Bpfman.Image.Verify

/-!
# Pulling an image

A pull answers from the image cache when the pull policy lets it and the cache has an entry for the
URL. Otherwise it resolves the reference, asks the signature verifier about the resolved digest,
downloads manifest, labels and layer, extracts the bytecode and puts it in the cache.

A cache entry is a directory with two files, the bytecode and the metadata. They are written one
after the other, with a validation of the bytecode between them, and a hit needs both. Every file
operation may fail; what it may leave behind when it does is said by its outcome. A pull that
crashes leaves what a pull leaves whose next operation fails without effect.

Both files carry a ghost, the `Origin` of what was written: the number of the pull and the digest
its reference resolved to. The world's log of verdicts is a ghost as well.
-/

namespace Bpfman.Image

open Fallible Proc

/-! ## The image cache -/

/-- Where the content of a cache file comes from. -/
structure Origin where
  pull : Nat
  image : Digest
  deriving DecidableEq, Repr

structure CachedMetadata where
  digest : Digest
  programs : StringMap
  maps : StringMap
  deriving DecidableEq, Repr

structure BytecodeFile where
  content : Bytes
  origin : Origin
  deriving DecidableEq, Repr

/-- The metadata file. One that was not written to its end does not parse. -/
inductive MetadataFile where
  | absent
  | torn
  | saved (data : CachedMetadata) (origin : Origin)
  deriving DecidableEq, Repr

/-- A cache entry. Without its directory it has no files. -/
structure Entry where
  dir : Bool
  bytecode : Option BytecodeFile
  metadata : MetadataFile
  deriving DecidableEq, Repr

namespace Entry

def empty : Entry := ⟨false, none, .absent⟩

end Entry

/-- `CacheBytecode` renames the file, or copies it when the rename fails. A copy that fails has cut
the destination short, unless it could not be opened. -/
inductive CacheOutcome where
  | renamed
  | copied
  | cutShort (written : Nat)
  | notOpened
  deriving DecidableEq, Repr

/-- `SaveMetadata` truncates the file and writes it. The error of closing a file that is complete is
`notClosed`. -/
inductive SaveOutcome where
  | saved
  | notClosed
  | torn
  | notOpened
  deriving DecidableEq, Repr

/-- Which files `RemoveCacheEntry` gets rid of. -/
structure RemoveOutcome where
  bytecode : Bool
  metadata : Bool
  deriving DecidableEq, Repr

def ensureCacheDir (fails : Bool) : Proc Entry String Unit := fun e =>
  if fails then .err "failed to create cache directory" e else .ok () { e with dir := true }

def cacheBytecode (o : CacheOutcome) (content : Bytes) (origin : Origin) :
    Proc Entry String Unit := fun e =>
  if ¬ e.dir then .err "failed to cache bytecode" e
  else
    match o with
    | .renamed => .ok () { e with bytecode := some ⟨content, origin⟩ }
    | .copied => .ok () { e with bytecode := some ⟨content, origin⟩ }
    | .cutShort n =>
      .err "failed to cache bytecode" { e with bytecode := some ⟨content.take n, origin⟩ }
    | .notOpened => .err "failed to cache bytecode" e

variable (F : Formats)

/-- Validate the bytecode file that is in the entry now. -/
def validateCached (hostBigEndian fails : Bool) : Proc Entry String Unit := fun e =>
  match e.bytecode with
  | none => .err "invalid ELF file" e
  | some f =>
    if fails then .err "invalid ELF file" e
    else lift (validateELF F hostBigEndian f.content) e

def removeCacheEntry (o : RemoveOutcome) : Proc Entry String Unit := fun e =>
  if o.bytecode && o.metadata then .ok () Entry.empty
  else
    .err "failed to remove cache entry" {
      e with
      bytecode := if o.bytecode then none else e.bytecode
      metadata := if o.metadata then .absent else e.metadata }

def saveMetadata (o : SaveOutcome) (data : CachedMetadata) (origin : Origin) :
    Proc Entry String Unit := fun e =>
  if ¬ e.dir then .err "failed to save metadata" e
  else
    match o with
    | .saved => .ok () { e with metadata := .saved data origin }
    | .notClosed => .err "failed to save metadata" { e with metadata := .saved data origin }
    | .torn => .err "failed to save metadata" { e with metadata := .torn }
    | .notOpened => .err "failed to save metadata" e

/-- A hit: both files are there and the metadata parses. -/
def Entry.checkCache (e : Entry) : Option (BytecodeFile × CachedMetadata × Origin) :=
  match e.bytecode, e.metadata with
  | some f, .saved data origin => some (f, data, origin)
  | _, _ => none

/-! ## The download -/

def IndexEntry.descriptor (m : IndexEntry) : Descriptor := ⟨m.mediaType, m.digest, m.size⟩

def Layer.descriptor (l : Layer) : Descriptor := ⟨l.mediaType, l.digest, l.size⟩

/-- The media types of a multi-platform index. -/
def isIndex (mediaType : String) : Bool :=
  mediaType = "application/vnd.oci.image.index.v1+json" ∨
    mediaType = "application/vnd.docker.distribution.manifest.list.v2+json"

/-- The first manifest of an index for the host. -/
def hostManifest (hostArch : String) (entries : List IndexEntry) : Option IndexEntry :=
  entries.find? fun m => m.architecture = hostArch ∧ m.os = "linux"

/-- The label of an image configuration that holds a string map, parsed. -/
def parseLabel (labels : StringMap) (label : String) : Except String StringMap :=
  let json := labels.get label
  if json = "" then .ok []
  else
    match F.parseStringMap json with
    | none => .error s!"failed to parse {label} label"
    | some m => .ok m

/-- The bytes a pull read from the registry, and what it made of them. -/
structure Download where
  resolved : Descriptor
  index : Option Bytes
  selected : Descriptor
  manifest : Bytes
  config : Option Bytes
  layer : Bytes
  programs : StringMap
  maps : StringMap
  deriving DecidableEq

/-- The body of a fetch, with the texts for the two ways it can fail. -/
def readBody (what : String) (r : Except String (Option Bytes)) : Except String Bytes :=
  match r with
  | .error e => .error s!"failed to fetch {what}: {e}"
  | .ok none => .error s!"failed to read {what}"
  | .ok (some body) => .ok body

/-- Choose the manifest of the host's platform from an index. -/
def selectPlatform (r : Registry) (hostArch : String) (indexDesc : Descriptor) :
    Except String (Bytes × Descriptor) := do
  let content ← readBody "index" (fetchManifest r .index indexDesc)
  match F.parseIndex content with
  | none => throw "failed to parse index"
  | some [] => throw "image index has no manifests"
  | some entries =>
    match hostManifest hostArch entries with
    | none => throw s!"no linux/{hostArch} manifest found in image index"
    | some m => return (content, m.descriptor)

/-- Fetch the image configuration and read the BPF labels. Without a digest there are none. -/
def extractLabels (r : Registry) (configDesc : Descriptor) :
    Except String (Option Bytes × StringMap × StringMap) :=
  if configDesc.digest = "" then .ok (none, [], [])
  else do
    let content ← readBody "config" (fetchBlob r .config configDesc)
    match F.parseConfig content with
    | none => throw "failed to parse config"
    | some labels =>
      let programs ← parseLabel F labels "io.ebpf.programs"
      let maps ← parseLabel F labels "io.ebpf.maps"
      return (some content, programs, maps)

/-- The manifest to use: the resolved one, or the one an index lists for the host. -/
def selectManifest (r : Registry) (hostArch : String) (desc : Descriptor) :
    Except String (Option Bytes × Descriptor) :=
  if isIndex desc.mediaType then do
    let (content, target) ← selectPlatform F r hostArch desc
    return (some content, target)
  else .ok (none, desc)

/-- Everything a pull reads from the registry once the reference is resolved. -/
def download (r : Registry) (hostArch : String) (desc : Descriptor) : Except String Download := do
  let (index, selected) ← selectManifest F r hostArch desc
  let manifestContent ← readBody "manifest" (fetchManifest r .manifest selected)
  match F.parseManifest manifestContent with
  | none => throw "failed to parse manifest"
  | some manifest =>
    match manifest.layers with
    | [] => throw "image has no layers"
    | layer :: _ =>
      let (config, programs, maps) ← (extractLabels F r manifest.config).mapError
        fun e => s!"failed to extract labels: {e}"
      let layerContent ← readBody "layer" (fetchBlob r .layer layer.descriptor)
      return ⟨desc, index, selected, manifestContent, config, layerContent, programs, maps⟩

/-! ## The pull -/

inductive ImagePullPolicy where
  | always
  | ifNotPresent
  | never
  deriving DecidableEq, Repr

structure ImageRef where
  url : String
  pullPolicy : ImagePullPolicy
  deriving DecidableEq, Repr

/-- How the file operations of a pull end; `true` is a failure. -/
structure Faults where
  createTempDir : Bool
  writeTempFile : Bool
  extract : Bool
  ensureCacheDir : Bool
  cacheBytecode : CacheOutcome
  validate : Bool
  removeCacheEntry : RemoveOutcome
  saveMetadata : SaveOutcome
  deriving DecidableEq, Repr

def Faults.none : Faults :=
  ⟨false, false, false, false, .renamed, false, ⟨true, true⟩, .saved⟩

/-- What one pull runs in: the configuration of its puller, the network, the host, and its
number. -/
structure PullEnv where
  signing : SigningConfig
  registry : Registry
  cosign : Cosign
  hostArch : String
  hostBigEndian : Bool
  faults : Faults
  pull : Nat

/-- That the verifier of a configuration accepted an image. -/
structure Verdict where
  signing : SigningConfig
  image : Digest
  status : VerificationStatus
  deriving DecidableEq, Repr

/-- The image cache, by cache key, and the log of verdicts. -/
structure CacheWorld where
  cache : String → Entry
  accepted : List Verdict

namespace CacheWorld

def empty : CacheWorld := ⟨fun _ => Entry.empty, []⟩

end CacheWorld

def atEntry {α : Type} (key : String) (m : Proc Entry String α) : Proc CacheWorld String α :=
  fun w =>
    match m (w.cache key) with
    | .ok a e => .ok a { w with cache := Function.update w.cache key e }
    | .err x e => .err x { w with cache := Function.update w.cache key e }

/-- The result of a pull. The object path is the bytecode file of the entry `object`. What was read
from the registry, if anything was, is a ghost. -/
structure PulledImage where
  object : String
  programs : StringMap
  maps : StringMap
  url : String
  digest : Digest
  pullPolicy : ImagePullPolicy
  used : Option Download
  deriving DecidableEq

def extractLayer (faults : Faults) (layer : Bytes) : Except String Bytes :=
  if faults.createTempDir then .error "failed to create temp directory"
  else if faults.writeTempFile then .error "failed to write layer"
  else if faults.extract then .error "failed to read directory"
  else extractBytecode F [("layer.blob", layer)]

/-- Put a downloaded image in its cache entry. Bytecode that does not validate takes the entry
away. -/
def publish (hostBigEndian : Bool) (faults : Faults) (bytecode : Bytes)
    (data : CachedMetadata) (origin : Origin) : Proc Entry String Unit := do
  ensureCacheDir faults.ensureCacheDir
  cacheBytecode faults.cacheBytecode bytecode origin
  (validateCached F hostBigEndian faults.validate).onErr (removeCacheEntry faults.removeCacheEntry)
  saveMetadata faults.saveMetadata data origin

/-- The reference handed to the verifier names the resolved digest. -/
def verifyRef (url : String) (digest : Digest) : String :=
  if digest ≠ "" then url ++ "@" ++ digest else url

/-- Resolve a reference and have the verifier accept what it resolved to. -/
def resolveVerified (env : PullEnv) (v : Verifier) (url : String) :
    Proc CacheWorld String Descriptor := do
  match F.parseReference url with
  | none => fail "failed to parse image reference"
  | some reference =>
    let desc ← (lift (resolve env.registry reference)).mapErr
      fun e => s!"failed to resolve image: {e}"
    let status ← (lift (verify env.cosign v (verifyRef url desc.digest))).mapErr
      fun e => s!"signature verification failed: {e}"
    modify fun w => { w with accepted := ⟨env.signing, desc.digest, status⟩ :: w.accepted }
    return desc

def pullFromRegistry (env : PullEnv) (v : Verifier) (ref : ImageRef) :
    Proc CacheWorld String PulledImage := do
  let desc ← resolveVerified F env v ref.url
  let d ← lift (download F env.registry env.hostArch desc)
  let bytecode ← lift (extractLayer F env.faults d.layer)
  let data : CachedMetadata := ⟨d.selected.digest, d.programs, d.maps⟩
  atEntry (F.cacheKey ref.url)
    (publish F env.hostBigEndian env.faults bytecode data ⟨env.pull, desc.digest⟩)
  return ⟨F.cacheKey ref.url, d.programs, d.maps, ref.url, d.selected.digest, ref.pullPolicy,
    some d⟩

/-- Whether a pull may be answered from the cache, and with what. -/
def cached (ref : ImageRef) (w : CacheWorld) : Option (BytecodeFile × CachedMetadata × Origin) :=
  if ref.pullPolicy = .always then none else (w.cache (F.cacheKey ref.url)).checkCache

/-- Download an image and return the extracted bytecode. -/
def pull (F : Formats) (env : PullEnv) (v : Verifier) (ref : ImageRef) :
    Proc CacheWorld String PulledImage := do
  match ← read (cached F ref) with
  | some (_, data, _) =>
    return ⟨F.cacheKey ref.url, data.programs, data.maps, ref.url, data.digest, ref.pullPolicy,
      none⟩
  | none =>
    if ref.pullPolicy = .never then
      fail s!"image {ref.url} not in cache and pull policy is Never"
    else pullFromRegistry F env v ref

/-- A pull through a puller built for a signing configuration. -/
def pullWith (env : PullEnv) (ref : ImageRef) : Proc CacheWorld String PulledImage := do
  let v ← lift (fromSigningConfig F env.signing)
  pull F env v ref

/-- A history of pulls, one after the other, from an empty cache. -/
def afterPulls (calls : List (PullEnv × ImageRef)) : CacheWorld :=
  calls.foldl (fun w c => (pullWith F c.1 c.2 w).state) CacheWorld.empty

end Bpfman.Image
