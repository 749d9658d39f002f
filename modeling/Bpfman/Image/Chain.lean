import Bpfman.Image.PullProof

/-!
# From the verified digest to the bytecode

The verifier vouches for a digest; the bytecode is what comes out of the layer. Between them lie up
to four fetches: an index, a manifest, a configuration and a layer, each named by a digest in the
one before. Were every body hashed, the bytecode would be bound to the verified digest
(`Bound`). No body is: the client library compares headers and the puller takes what it reads. So
the binding holds exactly when the registry itself sends bodies that hash to the digests they are
asked for under (`ServesDigests`, `bound_iff_servesDigests`).
-/

namespace Bpfman.Image

open Fallible Proc

variable (hash : Bytes → Digest)

variable {F : Formats} {r : Registry} {hostArch : String} {desc : Descriptor}

/-- The digests an index lists. -/
def listedDigests (F : Formats) (index : Bytes) : List Digest :=
  ((F.parseIndex index).getD []).map (·.digest)

/-- The manifest is the one of digest `d`, or one that an index of digest `d` lists. -/
def ManifestOf (F : Formats) (d : Digest) (index : Option Bytes) (manifest : Bytes) : Prop :=
  hash manifest = d ∨ ∃ i ∈ index, hash i = d ∧ hash manifest ∈ listedDigests F i

/-- The bytes a pull used are bound to the digest it resolved: the manifest is of that digest or
listed in an index of it, and configuration and layer have the digests the manifest lists. -/
def Bound (F : Formats) (d : Download) : Prop :=
  ManifestOf hash F d.resolved.digest d.index d.manifest ∧
    ∃ m ∈ F.parseManifest d.manifest,
      (∀ c ∈ d.config, hash c = m.config.digest) ∧
      ∃ l ∈ m.layers.head?, hash d.layer = l.digest

/-- The manifest a reference stands for when it resolves to `desc`: that of the descriptor, or the
one listed for the host in the index the registry sends. -/
def manifestTarget (F : Formats) (r : Registry) (hostArch : String) (desc : Descriptor) :
    Option Descriptor :=
  if isIndex desc.mediaType then do
    let index ← manifestBody r .index desc
    let entries ← F.parseIndex index
    let m ← hostManifest hostArch entries
    return m.descriptor
  else some desc

/-- The index body a registry sends, where the descriptor is that of an index. -/
def indexSent (r : Registry) (desc : Descriptor) : Option Bytes :=
  if isIndex desc.mediaType then manifestBody r .index desc else none

/-- The configuration body a registry sends, where the manifest names one. -/
def configSent (r : Registry) (m : Manifest) : Option Bytes :=
  if m.config.digest = "" then none else blobBody r .config m.config

/-- The registry sends bodies that hash to the digests asked for, as far as a pull of `desc` asks:
for the manifest, for the configuration it names and for its first layer. -/
def ServesDigests (F : Formats) (r : Registry) (hostArch : String) (desc : Descriptor) : Prop :=
  ∀ target ∈ manifestTarget F r hostArch desc, ∀ manifest ∈ manifestBody r .manifest target,
    ManifestOf hash F desc.digest (indexSent r desc) manifest ∧
    ∀ m ∈ F.parseManifest manifest,
      (∀ c ∈ configSent r m, hash c = m.config.digest) ∧
      ∀ l ∈ m.layers.head?, ∀ b ∈ blobBody r .layer l.descriptor, hash b = l.digest

/-! ## What a download used -/

theorem readBody_eq_ok {what : String} {r : Except String (Option Bytes)} {body : Bytes}
    (h : readBody what r = .ok body) : r = .ok (some body) := by
  cases r with
  | error e => cases h
  | ok b =>
    cases b with
    | none => cases h
    | some b => cases h; rfl

theorem selectManifest_eq_ok {index : Option Bytes} {selected : Descriptor}
    (h : selectManifest F r hostArch desc = .ok (index, selected)) :
    index = indexSent r desc ∧ manifestTarget F r hostArch desc = some selected := by
  unfold selectManifest at h
  unfold indexSent manifestTarget
  by_cases hi : isIndex desc.mediaType = true
  · rw [if_pos hi] at h ⊢
    rw [if_pos hi]
    obtain ⟨⟨content, target⟩, hs, h⟩ := except_bind_eq_ok.mp h
    cases h
    obtain ⟨content', hb, hs⟩ := except_bind_eq_ok.mp hs
    have hbody := fetchManifest_eq_ok (readBody_eq_ok hb)
    cases hp : F.parseIndex content' with
    | none => simp [hp] at hs
    | some entries =>
      cases entries with
      | nil => simp [hp] at hs
      | cons e es =>
        cases hm : hostManifest hostArch (e :: es) with
        | none => simp [hp, hm] at hs
        | some m =>
          simp only [hp, hm] at hs
          cases hs
          exact ⟨hbody.symm, by simp [hbody, hp, hm]⟩
  · rw [if_neg hi] at h ⊢
    rw [if_neg hi]
    cases h
    exact ⟨rfl, rfl⟩

theorem extractLabels_eq_ok {m : Manifest} {config : Option Bytes} {programs maps : StringMap}
    (h : extractLabels F r m.config = .ok (config, programs, maps)) : config = configSent r m := by
  unfold extractLabels at h
  unfold configSent
  by_cases hd : m.config.digest = ""
  · rw [if_pos hd] at h ⊢
    cases h
    rfl
  · rw [if_neg hd] at h ⊢
    obtain ⟨content, hb, h⟩ := except_bind_eq_ok.mp h
    rw [fetchBlob_eq_ok (readBody_eq_ok hb)]
    cases hp : F.parseConfig content with
    | none => simp [hp] at h
    | some labels =>
      simp only [hp] at h
      obtain ⟨programs', -, h⟩ := except_bind_eq_ok.mp h
      obtain ⟨maps', -, h⟩ := except_bind_eq_ok.mp h
      cases h
      rfl

/-- A download used the bodies the registry sent, whatever they are. -/
theorem download_eq_ok {d : Download} (h : download F r hostArch desc = .ok d) :
    d.resolved = desc ∧ d.index = indexSent r desc ∧
      manifestTarget F r hostArch desc = some d.selected ∧
      manifestBody r .manifest d.selected = some d.manifest ∧
      ∃ m l, F.parseManifest d.manifest = some m ∧ m.layers.head? = some l ∧
        d.config = configSent r m ∧ blobBody r .layer l.descriptor = some d.layer := by
  obtain ⟨⟨index, selected⟩, hsel, h⟩ := except_bind_eq_ok.mp h
  obtain ⟨content, hman, h⟩ := except_bind_eq_ok.mp h
  obtain ⟨hindex, htarget⟩ := selectManifest_eq_ok hsel
  have hbody := fetchManifest_eq_ok (readBody_eq_ok hman)
  cases hp : F.parseManifest content with
  | none => simp [hp] at h
  | some m =>
    cases hl : m.layers with
    | nil => simp [hp, hl] at h
    | cons l ls =>
      simp only [hp, hl] at h
      obtain ⟨⟨config, programs, maps⟩, hlab, h⟩ := except_bind_eq_ok.mp h
      obtain ⟨layer, hlay, h⟩ := except_bind_eq_ok.mp h
      cases h
      have hconfig : config = configSent r m := by
        cases he : extractLabels F r m.config with
        | error e => rw [he] at hlab; cases hlab
        | ok x => rw [he] at hlab; cases hlab; exact extractLabels_eq_ok he
      exact ⟨rfl, hindex, htarget, hbody, m, l, hp, by rw [hl]; rfl, hconfig,
        fetchBlob_eq_ok (readBody_eq_ok hlay)⟩

theorem bound_iff_of_download {d : Download} (h : download F r hostArch desc = .ok d) :
    Bound hash F d ↔ ServesDigests hash F r hostArch desc := by
  obtain ⟨hres, hindex, htarget, hman, m, l, hparse, hlayer, hconfig, hblob⟩ := download_eq_ok h
  constructor
  · rintro ⟨hof, m', hm', hcfg, l', hl', hlay⟩ target ht manifest hmb
    cases htarget.symm.trans ht
    cases hman.symm.trans hmb
    cases hparse.symm.trans hm'
    cases hlayer.symm.trans hl'
    rw [hres, hindex] at hof
    refine ⟨hof, fun m' hm' => ?_⟩
    cases hparse.symm.trans hm'
    refine ⟨fun c hc => hcfg c (hconfig ▸ hc), fun l' hl' b hb => ?_⟩
    cases hlayer.symm.trans hl'
    cases hblob.symm.trans hb
    exact hlay
  · intro hserve
    obtain ⟨hof, hrest⟩ := hserve d.selected htarget d.manifest hman
    obtain ⟨hcfg, hlay⟩ := hrest m hparse
    refine ⟨by rw [hres, hindex]; exact hof, m, hparse, fun c hc => hcfg c (hconfig ▸ hc),
      l, hlayer, hlay l hlayer d.layer hblob⟩

/-! ## The pull -/

/-- The bytecode a pull returns comes out of the layer it used, and what it used is bound to the
digest it resolved. -/
def BytecodeBound (F : Formats) (w : CacheWorld) (img : PulledImage) (d : Download) : Prop :=
  Bound hash F d ∧ ∃ f ∈ (w.cache img.object).bytecode,
    extractBytecode F [("layer.blob", d.layer)] = .ok f.content

/-- The registry serves digests for what an image URL resolves to. -/
def ServesImage (F : Formats) (env : PullEnv) (url : String) : Prop :=
  ∀ reference ∈ F.parseReference url, ∀ desc, resolve env.registry reference = .ok desc →
    ServesDigests hash F env.registry env.hostArch desc

/-- For every registry: the bytecode of a pull that resolved and verified a digest and then
succeeded is bound to that digest exactly when the registry sent bodies that hash to the digests
asked for. -/
theorem bound_iff_servesDigests (F : Formats) (env : PullEnv) (v : Verifier) (ref : ImageRef)
    (w w' : CacheWorld) (img : PulledImage) (d : Download)
    (h : pull F env v ref w = .ok img w') (hd : img.used = some d) :
    BytecodeBound hash F w' img d ↔ ServesImage hash F env ref.url := by
  rcases pull_eq_ok h with ⟨f, data, origin, -, -, rfl⟩ | ⟨-, ⟨p⟩⟩
  · cases hd
  · obtain ⟨reference, desc, status, down, bytecode, hparse, hres, -, hdown, hext, rfl, rfl⟩ := p
    cases hd
    have hfile : ∃ f ∈ (Function.update w.cache (F.cacheKey ref.url)
        (Entry.full bytecode ⟨d.selected.digest, d.programs, d.maps⟩ ⟨env.pull, desc.digest⟩)
        (F.cacheKey ref.url)).bytecode, extractBytecode F [("layer.blob", d.layer)] =
          .ok f.content := by
      refine ⟨⟨bytecode, env.pull, desc.digest⟩, ?_, hext⟩
      simp [Entry.full]
    have hiff := bound_iff_of_download hash hdown
    constructor
    · rintro ⟨hbound, -⟩ reference' hparse' desc' hres'
      cases hparse.symm.trans hparse'
      cases hres.symm.trans hres'
      exact hiff.mp hbound
    · intro hserve
      exact ⟨hiff.mpr (hserve reference hparse desc hres), hfile⟩

theorem bound_iff_servesDigests_sample :
    ∃ img w' d, pull Sample.formats (Sample.env Sample.enforcing 2 0) (.cosign false [anySigner])
        Sample.ref CacheWorld.empty = .ok img w' ∧ img.used = some d ∧
      (BytecodeBound Sample.hash Sample.formats w' img d ↔
        ServesImage Sample.hash Sample.formats (Sample.env Sample.enforcing 2 0) Sample.ref.url) :=
  ⟨_, _, _, rfl, rfl, bound_iff_servesDigests Sample.hash Sample.formats
    (Sample.env Sample.enforcing 2 0) (.cosign false [anySigner]) Sample.ref CacheWorld.empty
    _ _ _ rfl rfl⟩

/-- A registry sends the signed manifest of image 2 and, for its layer, the object file of image 1.
The pull verifies the digest of image 2 and returns the bytecode of image 1. -/
theorem pull_returns_other_layer :
    ∃ img w' d, pull Sample.formats
        { Sample.env Sample.enforcing 2 0 with registry := Sample.registry 2 (Sample.object 1) }
        (.cosign false [anySigner]) Sample.ref CacheWorld.empty = .ok img w' ∧
      img.used = some d ∧ ¬ BytecodeBound Sample.hash Sample.formats w' img d := by
  refine ⟨_, _, _, rfl, rfl, ?_⟩
  rintro ⟨⟨-, m, hm, -, l, hl, hlayer⟩, -⟩
  cases hm
  cases hl
  exact absurd hlayer (by decide)

end Bpfman.Image
