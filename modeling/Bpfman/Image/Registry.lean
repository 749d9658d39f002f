import Bpfman.Lib.Proc

/-!
# The registry and the client library

A registry answers requests as it likes. What stands between its answers and the puller is the
client library: `resolve` turns a `HEAD` answer into a descriptor, `fetchManifest` and `fetchBlob`
hand over a body. The library compares the declared length, the content type and the digest header
the server itself sends with the descriptor it was asked for. It does not hash the body, and
neither does the puller, which reads it with `io.ReadAll`.

The formats a pull decodes (JSON documents, gzip, tar, ELF headers, image references) are the
fields of `Formats`: the standard library's decoders, about which nothing is assumed.
-/

namespace Bpfman.Image

abbrev Bytes := List UInt8

abbrev Digest := String

structure Descriptor where
  mediaType : String
  digest : Digest
  size : Int
  deriving DecidableEq, Repr

inductive HttpStatus where
  | ok
  | notFound
  | other
  deriving DecidableEq, Repr

/-- The `Docker-Content-Digest` header of an answer. -/
inductive DigestHeader where
  | absent
  | malformed
  | value (d : Digest)
  deriving DecidableEq, Repr

/-- An HTTP answer. A body that breaks off, or is shorter than the declared length, is `none`: the
reader gets an error. So a body that is read has the length that was declared, if one was. -/
structure Response where
  status : HttpStatus
  contentType : Option String
  contentLength : Option Int
  contentDigest : DigestHeader
  body : Option Bytes
  body_length : ∀ b n, body = some b → contentLength = some n → (b.length : Int) = n
  deriving DecidableEq

/-- The requests of one pull, in the order in which they are made. -/
inductive Stage where
  | resolve
  | index
  | manifest
  | config
  | layer
  deriving DecidableEq, Repr

inductive Request where
  | head (reference : String)
  | manifest (digest : Digest) (accept : String)
  | blob (digest : Digest)
  deriving DecidableEq, Repr

/-- The answers of a registry during one pull; `none` is a connection that fails. The same request
may be answered differently when it is made a second time. -/
abbrev Registry := Stage → Request → Option Response

/-- The parts of an image reference a pull uses. -/
structure Reference where
  reference : String
  digest : Option Digest
  deriving DecidableEq, Repr

/-- One entry of an image index. -/
structure IndexEntry where
  digest : Digest
  size : Int
  mediaType : String
  architecture : String
  os : String
  deriving DecidableEq, Repr

structure Layer where
  digest : Digest
  size : Int
  mediaType : String
  deriving DecidableEq, Repr

structure Manifest where
  config : Descriptor
  layers : List Layer
  deriving DecidableEq, Repr

/-- A string map, as its list of pairs; a nil map is the empty list. -/
abbrev StringMap := List (String × String)

/-- The value under `key`, the empty string if there is none. -/
def StringMap.get (m : StringMap) (key : String) : String :=
  ((m.find? fun p => p.1 == key).map Prod.snd).getD ""

/-- One member of a tar archive. -/
structure TarEntry where
  name : String
  size : Nat
  content : Bytes
  deriving DecidableEq, Repr

/-- A stream that is decoded as it is read: what it yields, and whether it then breaks off. -/
structure Stream (α : Type) where
  items : List α
  broken : Bool
  deriving DecidableEq, Repr

/-- The fields of an ELF header that are checked. -/
structure ElfHeader where
  machine : Nat
  bigEndian : Bool
  relocatable : Bool
  deriving DecidableEq, Repr

/-- The decoders of the standard library. -/
structure Formats where
  parseReference : String → Option Reference
  parseIndex : Bytes → Option (List IndexEntry)
  parseManifest : Bytes → Option Manifest
  /-- The labels of an image configuration. -/
  parseConfig : Bytes → Option StringMap
  parseStringMap : String → Option StringMap
  /-- `none` when the gzip header is bad. -/
  gunzip : Bytes → Option (Stream UInt8)
  untar : Stream UInt8 → Stream TarEntry
  parseElf : Bytes → Option ElfHeader
  trimSpace : String → String
  compilesRegexp : String → Bool
  /-- The truncated hash of a URL under which the cache keeps an image. -/
  cacheKey : String → String

/-! ## The client library -/

/-- The descriptor of what a reference names, from the headers of the answer alone. -/
def generateDescriptor (resp : Response) (ref : Reference) : Except String Descriptor :=
  match resp.contentType, resp.contentLength with
  | none, _ => .error "invalid response Content-Type header"
  | some _, none => .error "unknown response Content-Length"
  | some mediaType, some size =>
    match resp.contentDigest, ref.digest with
    | .malformed, _ => .error "invalid response header value"
    | .absent, none => .error "HTTP HEAD request missing required header \"Docker-Content-Digest\""
    | .absent, some d => .ok ⟨mediaType, d, size⟩
    | .value d, none => .ok ⟨mediaType, d, size⟩
    | .value d, some d' =>
      if d' = d then .ok ⟨mediaType, d, size⟩
      else .error "invalid response; digest mismatch in Docker-Content-Digest"

def resolve (r : Registry) (ref : Reference) : Except String Descriptor :=
  match r .resolve (.head ref.reference) with
  | none => .error "request failed"
  | some resp =>
    match resp.status with
    | .ok => generateDescriptor resp ref
    | .notFound => .error "not found"
    | .other => .error "error response"

/-- The digest header is compared when the server sends one. -/
def verifyContentDigest (resp : Response) (expected : Digest) : Except String Unit :=
  match resp.contentDigest with
  | .absent => .ok ()
  | .malformed => .error "invalid response header"
  | .value d =>
    if d = expected then .ok () else .error "invalid response; digest mismatch"

/-- The declared length is compared when there is one. -/
def verifyContentLength (resp : Response) (size : Int) : Except String Unit :=
  match resp.contentLength with
  | none => .ok ()
  | some n => if n = size then .ok () else .error "mismatch Content-Length"

/-- Fetch a manifest or an index. The body handed over is `none` when reading it fails. -/
def fetchManifest (r : Registry) (stage : Stage) (target : Descriptor) :
    Except String (Option Bytes) :=
  match r stage (.manifest target.digest target.mediaType) with
  | none => .error "request failed"
  | some resp =>
    match resp.status with
    | .notFound => .error "not found"
    | .other => .error "error response"
    | .ok =>
      match resp.contentType with
      | none => .error "invalid response Content-Type"
      | some mediaType =>
        if mediaType ≠ target.mediaType then .error "mismatch response Content-Type"
        else do
          verifyContentLength resp target.size
          verifyContentDigest resp target.digest
          return resp.body

def fetchBlob (r : Registry) (stage : Stage) (target : Descriptor) : Except String (Option Bytes) :=
  match r stage (.blob target.digest) with
  | none => .error "request failed"
  | some resp =>
    match resp.status with
    | .notFound => .error "not found"
    | .other => .error "error response"
    | .ok => do
      verifyContentLength resp target.size
      verifyContentDigest resp target.digest
      return resp.body

/-- The body a registry sends for a manifest or an index. -/
def manifestBody (r : Registry) (stage : Stage) (target : Descriptor) : Option Bytes :=
  (r stage (.manifest target.digest target.mediaType)).bind (·.body)

def blobBody (r : Registry) (stage : Stage) (target : Descriptor) : Option Bytes :=
  (r stage (.blob target.digest)).bind (·.body)

variable {r : Registry} {stage : Stage} {target : Descriptor} {body : Option Bytes}

theorem eq_of_verified {resp : Response} (h : (do
    verifyContentLength resp target.size
    verifyContentDigest resp target.digest
    return resp.body) = Except.ok body) : resp.body = body := by
  obtain ⟨-, -, h⟩ := Fallible.Proc.except_bind_eq_ok.1 h
  obtain ⟨-, -, h⟩ := Fallible.Proc.except_bind_eq_ok.1 h
  exact Except.ok.inj h

theorem fetchManifest_eq_ok (h : fetchManifest r stage target = .ok body) :
    manifestBody r stage target = body := by
  unfold fetchManifest at h
  unfold manifestBody
  split at h
  · cases h
  · rename_i resp hr
    rw [hr]
    split at h <;> try cases h
    split at h
    · cases h
    · split at h
      · cases h
      · exact eq_of_verified h

theorem fetchBlob_eq_ok (h : fetchBlob r stage target = .ok body) :
    blobBody r stage target = body := by
  unfold fetchBlob at h
  unfold blobBody
  split at h
  · cases h
  · rename_i resp hr
    rw [hr]
    split at h <;> try cases h
    exact eq_of_verified h

end Bpfman.Image
