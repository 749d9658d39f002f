import Bpfman.Image.Pull

/-!
# What a successful pull has done

Inversion of the steps of a pull. A pull that succeeds answered from the cache, changing nothing,
or it resolved the reference, had the verifier accept the resolved digest, downloaded the image and
left a cache entry whose two files are its own (`pull_eq_ok`).
-/

namespace Bpfman.Image

open Fallible Proc

section

variable {e e' : Entry} {origin : Origin} {F : Formats} {env : PullEnv} {v : Verifier}
  {w w' : CacheWorld} {ref : ImageRef} {img : PulledImage}

/-! ## The cache entry -/

/-- An entry that a pull has just filled. -/
def Entry.full (bytecode : Bytes) (data : CachedMetadata) (origin : Origin) : Entry :=
  ⟨true, some ⟨bytecode, origin⟩, .saved data origin⟩

theorem ensureCacheDir_eq_ok {fails : Bool}
    (h : ensureCacheDir fails e = .ok () e') : e' = { e with dir := true } := by
  cases fails with
  | true => cases h
  | false => cases h; rfl

theorem cacheBytecode_eq_ok {o : CacheOutcome} {content : Bytes}
    (h : cacheBytecode o content origin e = .ok () e') :
    e.dir = true ∧ e' = { e with bytecode := some ⟨content, origin⟩ } := by
  unfold cacheBytecode at h
  cases hd : e.dir with
  | false => simp [hd] at h
  | true =>
    simp only [hd, not_true, if_false] at h
    cases o <;> cases h <;> exact ⟨rfl, rfl⟩

theorem validateCached_eq_ok {big fails : Bool}
    (h : validateCached F big fails e = .ok () e') : e' = e := by
  unfold validateCached at h
  cases hb : e.bytecode with
  | none => simp [hb] at h
  | some f =>
    cases fails with
    | true => simp [hb] at h
    | false =>
      simp only [hb, Bool.false_eq_true, if_false, lift_eq_ok] at h
      exact h.2.symm

theorem saveMetadata_eq_ok {o : SaveOutcome} {data : CachedMetadata}
    (h : saveMetadata o data origin e = .ok () e') :
    e' = { e with metadata := .saved data origin } := by
  unfold saveMetadata at h
  cases hd : e.dir with
  | false => simp [hd] at h
  | true =>
    simp only [hd, not_true, if_false] at h
    cases o <;> cases h
    rfl

theorem publish_eq_ok {big : Bool} {faults : Faults} {bytecode : Bytes} {data : CachedMetadata}
    (h : publish F big faults bytecode data origin e = .ok () e') :
    e' = Entry.full bytecode data origin := by
  obtain ⟨_, e1, h1, h⟩ := bind_eq_ok.mp h
  obtain ⟨_, e2, h2, h⟩ := bind_eq_ok.mp h
  obtain ⟨_, e3, h3, h⟩ := bind_eq_ok.mp h
  have hv := validateCached_eq_ok (onErr_eq_ok.mp h3)
  have hs := saveMetadata_eq_ok h
  have hc := (cacheBytecode_eq_ok h2).2
  have he := ensureCacheDir_eq_ok h1
  rw [hs, hv, hc, he]
  rfl

/-! ## The pull -/

theorem resolveVerified_eq_ok {url : String} {desc : Descriptor}
    (h : resolveVerified F env v url w = .ok desc w') :
    ∃ reference status, F.parseReference url = some reference ∧
      resolve env.registry reference = .ok desc ∧
      verify env.cosign v (verifyRef url desc.digest) = .ok status ∧
      w' = { w with accepted := ⟨env.signing, desc.digest, status⟩ :: w.accepted } := by
  unfold resolveVerified at h
  cases hr : F.parseReference url with
  | none => simp [hr] at h
  | some reference =>
    simp only [hr] at h
    obtain ⟨desc', w1, h1, h⟩ := bind_eq_ok.mp h
    obtain ⟨status, w2, h2, h⟩ := bind_eq_ok.mp h
    obtain ⟨hres, rfl⟩ := lift_eq_ok.mp (mapErr_eq_ok.mp h1)
    obtain ⟨hver, rfl⟩ := lift_eq_ok.mp (mapErr_eq_ok.mp h2)
    cases h
    exact ⟨reference, status, rfl, hres, hver, rfl⟩

theorem atEntry_eq_ok {α : Type} {key : String} {m : Proc Entry String α}
    {a : α} (h : atEntry key m w = .ok a w') :
    ∃ e, m (w.cache key) = .ok a e ∧ w' = { w with cache := Function.update w.cache key e } := by
  unfold atEntry at h
  cases hm : m (w.cache key) with
  | ok b e =>
    simp only [hm] at h
    cases h
    exact ⟨e, rfl, rfl⟩
  | err x e => simp [hm] at h

/-- What a pull from the registry did: the verdict it asked for, the download, the bytecode, and
the entry it left. -/
structure FromRegistry (F : Formats) (env : PullEnv) (v : Verifier) (ref : ImageRef)
    (w : CacheWorld) (img : PulledImage) (w' : CacheWorld) where
  reference : Reference
  desc : Descriptor
  status : VerificationStatus
  down : Download
  bytecode : Bytes
  parsed : F.parseReference ref.url = some reference
  resolved : resolve env.registry reference = .ok desc
  verified : verify env.cosign v (verifyRef ref.url desc.digest) = .ok status
  downloaded : download F env.registry env.hostArch desc = .ok down
  extracted : extractBytecode F [("layer.blob", down.layer)] = .ok bytecode
  image : img = ⟨F.cacheKey ref.url, down.programs, down.maps, ref.url, down.selected.digest,
    ref.pullPolicy, some down⟩
  world : w' = ⟨Function.update w.cache (F.cacheKey ref.url)
    (Entry.full bytecode ⟨down.selected.digest, down.programs, down.maps⟩ ⟨env.pull, desc.digest⟩),
    ⟨env.signing, desc.digest, status⟩ :: w.accepted⟩

theorem extractLayer_eq_ok {faults : Faults} {layer bytecode : Bytes}
    (h : extractLayer F faults layer = .ok bytecode) :
    extractBytecode F [("layer.blob", layer)] = .ok bytecode := by
  unfold extractLayer at h
  split_ifs at h
  exact h

theorem pullFromRegistry_eq_ok (h : pullFromRegistry F env v ref w = .ok img w') :
    Nonempty (FromRegistry F env v ref w img w') := by
  obtain ⟨desc, w1, h1, h⟩ := bind_eq_ok.mp h
  obtain ⟨d, w2, h2, h⟩ := bind_eq_ok.mp h
  obtain ⟨bytecode, w3, h3, h⟩ := bind_eq_ok.mp h
  obtain ⟨_, w4, h4, h⟩ := bind_eq_ok.mp h
  obtain ⟨reference, status, hparse, hres, hver, rfl⟩ := resolveVerified_eq_ok h1
  obtain ⟨hdown, rfl⟩ := lift_eq_ok.mp h2
  obtain ⟨hext, rfl⟩ := lift_eq_ok.mp h3
  obtain ⟨e, he, rfl⟩ := atEntry_eq_ok h4
  have hfull := publish_eq_ok he
  subst hfull
  cases h
  exact ⟨⟨reference, desc, status, d, bytecode, hparse, hres, hver, hdown,
    extractLayer_eq_ok hext, rfl, rfl⟩⟩

theorem pull_eq_ok (h : pull F env v ref w = .ok img w') :
    (∃ f data origin, cached F ref w = some (f, data, origin) ∧ w' = w ∧
      img = ⟨F.cacheKey ref.url, data.programs, data.maps, ref.url, data.digest, ref.pullPolicy,
        none⟩) ∨
    cached F ref w = none ∧ Nonempty (FromRegistry F env v ref w img w') := by
  unfold pull at h
  rw [read_bind] at h
  cases hc : cached F ref w with
  | some hit =>
    obtain ⟨f, data, origin⟩ := hit
    simp only [hc] at h
    cases h
    exact .inl ⟨f, data, origin, rfl, rfl, rfl⟩
  | none =>
    simp only [hc] at h
    by_cases hn : ref.pullPolicy = .never
    · simp [hn] at h
    · rw [if_neg hn] at h
      exact .inr ⟨rfl, pullFromRegistry_eq_ok h⟩

theorem pullWith_eq_ok (h : pullWith F env ref w = .ok img w') :
    ∃ v, fromSigningConfig F env.signing = .ok v ∧ pull F env v ref w = .ok img w' := by
  obtain ⟨v, w1, h1, h⟩ := bind_eq_ok.mp h
  obtain ⟨hv, rfl⟩ := lift_eq_ok.mp h1
  exact ⟨v, hv, h⟩

end

/-! ## A sample registry

Image `x` is a manifest of the one byte `x` with one layer, the object file `object x`. The toy hash
of a byte string is the string itself. -/

namespace Sample

def hash (b : Bytes) : Digest := "sha256:" ++ String.ofList (b.map fun x => Char.ofNat x.toNat)

def object (x : UInt8) : Bytes := [0x7f, 0x45, 0x4c, 0x46, x]

def manifest (x : UInt8) : Manifest := ⟨⟨"", "", 0⟩, [⟨hash (object x), 5, "layer"⟩]⟩

def formats : Formats where
  parseReference _ := some ⟨"latest", none⟩
  parseIndex _ := none
  parseManifest b := b.head?.map manifest
  parseConfig _ := some []
  parseStringMap _ := some []
  gunzip _ := none
  untar _ := ⟨[], false⟩
  parseElf b := if isELFFile b then some ⟨elfMachineBPF, false, true⟩ else none
  trimSpace := id
  compilesRegexp _ := true
  cacheKey := id

def response (contentType : String) (d : Digest) (body : Bytes) : Response where
  status := .ok
  contentType := some contentType
  contentLength := some body.length
  contentDigest := .value d
  body := some body
  body_length := by rintro b n ⟨⟩ ⟨⟩; rfl

def headers (contentType : String) (d : Digest) (length : Int) : Response where
  status := .ok
  contentType := some contentType
  contentLength := some length
  contentDigest := .value d
  body := none
  body_length := by rintro b n ⟨⟩

/-- A registry that serves image `x`, with the object file `layer` in its layer. -/
def registry (x : UInt8) (layer : Bytes) : Registry
  | .resolve, _ => some (headers "manifest" (hash [x]) 1)
  | .manifest, .manifest d _ => some (response "manifest" d [x])
  | .layer, .blob d => some (response "layer" d layer)
  | _, _ => none

/-- Image 2 is the one that is signed. -/
def cosign : Cosign := fun _ imageRef =>
  if imageRef = verifyRef "quay.io/app" (hash [2]) then .verified else .noSignatures

/-- Signatures are not looked at. -/
def permissive : SigningConfig := ⟨true, false, []⟩

/-- Images must be signed. -/
def enforcing : SigningConfig := ⟨false, true, []⟩

/-- A pull while the registry serves image `x`. -/
def env (signing : SigningConfig) (x : UInt8) (n : Nat) : PullEnv :=
  ⟨signing, registry x (object x), cosign, "amd64", false, Faults.none, n⟩

def ref : ImageRef := ⟨"quay.io/app", .ifNotPresent⟩

end Sample

end Bpfman.Image
