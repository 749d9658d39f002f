import Bpfman.Image.CacheRun

/-!
# Signature enforcement and the cache

With a configuration that requires signatures, the bytecode a pull returns should belong to an image
whose digest the verifier accepted under that configuration. A pull from the registry gives this. A
pull answered from the cache asks no verifier: it returns whatever an earlier pull, under whatever
configuration, has left. So the guarantee holds exactly when a pull may not use the cache, finds
nothing there, or finds the bytecode of an image that was accepted before under the same
configuration (`pullWith_trusted_iff`).

In particular it holds along histories in which every pull of the URL is made under the one
configuration (`trusted_of_same_signing`).
-/

namespace Bpfman.Image

open Fallible Outcome Proc List

variable {F : Formats} {ref : ImageRef} {w w' : CacheWorld} {v : Verifier} {env : PullEnv}

/-- The verifier has accepted the image of a bytecode file under a configuration, because of a
signature. -/
def AcceptedFile (signing : SigningConfig) (w : CacheWorld) (f : BytecodeFile) : Prop :=
  ⟨signing, f.origin.image, .verified⟩ ∈ w.accepted

instance (signing : SigningConfig) (w : CacheWorld) (f : BytecodeFile) :
    Decidable (AcceptedFile signing w f) :=
  inferInstanceAs (Decidable (_ ∈ _))

/-- The object path of a pulled image names bytecode of an image accepted under a configuration. -/
def Trusted (signing : SigningConfig) (w : CacheWorld) (img : PulledImage) : Prop :=
  ∃ f ∈ (w.cache img.object).bytecode, AcceptedFile signing w f

/-- What the cache would answer with is the bytecode of an image accepted under a configuration. -/
def CacheTrusted (F : Formats) (signing : SigningConfig) (ref : ImageRef) (w : CacheWorld) : Prop :=
  ∀ hit ∈ cached F ref w, AcceptedFile signing w hit.1

theorem bytecode_of_cached
    {hit : BytecodeFile × CachedMetadata × Origin} (h : cached F ref w = some hit) :
    (w.cache (F.cacheKey ref.url)).bytecode = some hit.1 := by
  unfold cached at h
  split_ifs at h
  unfold Entry.checkCache at h
  cases hb : (w.cache (F.cacheKey ref.url)).bytecode with
  | none => simp [hb] at h
  | some f =>
    cases hm : (w.cache (F.cacheKey ref.url)).metadata with
    | absent => simp [hb, hm] at h
    | torn => simp [hb, hm] at h
    | saved data origin =>
      simp only [hb, hm, Option.some.injEq] at h
      rw [← h]

/-- Under a configuration that requires signatures, the verdict a pull asks for is that of a
signature. -/
theorem status_of_mustRequireSignatures {cfg : SigningConfig}
    {cosign : Cosign} {imageRef : String} {status : VerificationStatus}
    (hreq : cfg.mustRequireSignatures = true) (hv : fromSigningConfig F cfg = .ok v)
    (h : verify cosign v imageRef = .ok status) : status = .verified := by
  obtain ⟨identities, rfl, hcosign⟩ := verified_of_mustRequireSignatures hreq hv h
  simp only [verify, hcosign, Except.ok.injEq] at h
  exact h.symm

/-- A pull from the registry under a configuration that requires signatures returns the bytecode of
an image it had verified. -/
theorem FromRegistry.trusted {img : PulledImage} (p : FromRegistry F env v ref w img w')
    (hreq : env.signing.mustRequireSignatures = true)
    (hv : fromSigningConfig F env.signing = .ok v) : Trusted env.signing w' img := by
  obtain ⟨reference, desc, status, d, bytecode, -, -, hver, -, -, rfl, rfl⟩ := p
  have hstatus := status_of_mustRequireSignatures hreq hv hver
  subst hstatus
  refine ⟨⟨bytecode, env.pull, desc.digest⟩, ?_, mem_cons_self⟩
  simp [Entry.full]

theorem trusted_iff_cacheTrusted {img : PulledImage}
    (hreq : env.signing.mustRequireSignatures = true) (h : pullWith F env ref w = .ok img w') :
    Trusted env.signing w' img ↔ CacheTrusted F env.signing ref w := by
  obtain ⟨v, hv, hp⟩ := pullWith_eq_ok h
  rcases pull_eq_ok hp with ⟨f, data, origin, hc, rfl, rfl⟩ | ⟨hc, ⟨p⟩⟩
  · have hb := bytecode_of_cached hc
    constructor
    · rintro ⟨f', hf', hacc⟩ hit hhit
      cases hc.symm.trans hhit
      cases hb.symm.trans hf'
      exact hacc
    · intro hct
      exact ⟨f, hb, hct _ hc⟩
  · constructor
    · intro _ hit hhit
      rw [hc] at hhit
      cases hhit
    · intro _
      exact p.trusted hreq hv

/-- After every history of pulls, a pull that succeeds under a configuration that requires
signatures returns bytecode of an image accepted under it exactly when the cache had nothing else
to answer with. -/
theorem pullWith_trusted_iff (F : Formats) (calls : List (PullEnv × ImageRef)) (env : PullEnv)
    (ref : ImageRef) (img : PulledImage) (w' : CacheWorld)
    (hreq : env.signing.mustRequireSignatures = true)
    (h : pullWith F env ref (afterPulls F calls) = .ok img w') :
    Trusted env.signing w' img ↔ CacheTrusted F env.signing ref (afterPulls F calls) :=
  trusted_iff_cacheTrusted hreq h

theorem pullWith_trusted_iff_sample :
    ∃ img w', pullWith Sample.formats (Sample.env Sample.enforcing 2 1) Sample.ref
        (afterPulls Sample.formats [(Sample.env Sample.enforcing 2 0, Sample.ref)]) = .ok img w' ∧
      (Trusted Sample.enforcing w' img ↔ CacheTrusted Sample.formats Sample.enforcing Sample.ref
        (afterPulls Sample.formats [(Sample.env Sample.enforcing 2 0, Sample.ref)])) :=
  ⟨_, _, rfl, pullWith_trusted_iff Sample.formats _ (Sample.env Sample.enforcing 2 1) Sample.ref _ _
    rfl rfl⟩

/-- The unsigned image 1 is pulled while signatures are not looked at. A later pull that must
require signatures returns it out of the cache. -/
theorem cached_image_unverified :
    ∃ img w', pullWith Sample.formats (Sample.env Sample.enforcing 1 1) Sample.ref
        (afterPulls Sample.formats [(Sample.env Sample.permissive 1 0, Sample.ref)]) = .ok img w' ∧
      Sample.enforcing.mustRequireSignatures = true ∧ ¬ Trusted Sample.enforcing w' img := by
  refine ⟨_, _, rfl, rfl, ?_⟩
  rintro ⟨f, hf, hacc⟩
  cases hf
  exact absurd hacc (by decide)

/-! ## Histories under one configuration -/

/-- An operation on an entry leaves no bytecode there but the one it found and that of `origin`. -/
def Writes (origin : Origin) (e e' : Entry) : Prop :=
  ∀ f ∈ e'.bytecode, f ∈ e.bytecode ∨ f.origin = origin

variable {origin : Origin}

instance : Std.Refl (Writes origin) := ⟨fun _ _ hf => .inl hf⟩

instance : IsTrans Entry (Writes origin) := ⟨fun _ _ _ h₁ h₂ f hf =>
  (h₂ f hf).elim (h₁ f) .inr⟩

theorem keeps_ensureCacheDir (fails : Bool) : Keeps (Writes origin) (ensureCacheDir fails) := by
  intro e
  cases fails <;> exact refl_of (Writes origin) e

theorem keeps_cacheBytecode (o : CacheOutcome) (content : Bytes) :
    Keeps (Writes origin) (cacheBytecode o content origin) := by
  intro e f hf
  unfold cacheBytecode at hf
  by_cases hd : e.dir = true
  · cases o <;> simp only [hd, not_true, if_false, state_ok, state_err, Option.mem_some_iff] at hf
    case notOpened => exact .inl hf
    -- the file is written, whole or in part
    all_goals exact .inr (by rw [← hf])
  · simp only [hd, Bool.false_eq_true, not_false_eq_true, if_true, state_err] at hf
    exact .inl hf

theorem keeps_validateCached (F : Formats) (big fails : Bool) :
    Keeps (Writes origin) (validateCached F big fails) := by
  intro e
  rw [validateCached_state]
  exact refl_of (Writes origin) e

theorem keeps_removeCacheEntry (o : RemoveOutcome) : Keeps (Writes origin) (removeCacheEntry o) :=
  fun e f hf => .inl ((removeCacheEntry_sub o e).1 f hf)

theorem keeps_saveMetadata (o : SaveOutcome) (data : CachedMetadata) :
    Keeps (Writes origin) (saveMetadata o data origin) := by
  intro e f hf
  unfold saveMetadata at hf
  by_cases hd : e.dir = true
  · cases o <;> simp only [hd, not_true, if_false, state_err, state_ok] at hf <;> exact .inl hf
  · simp only [hd, Bool.false_eq_true, not_false_eq_true, if_true, state_err] at hf
    exact .inl hf

theorem keeps_publish (F : Formats) (big : Bool) (faults : Faults) (bytecode : Bytes)
    (data : CachedMetadata) (origin : Origin) :
    Keeps (Writes origin) (publish F big faults bytecode data origin) :=
  (keeps_ensureCacheDir _).bind fun _ =>
    (keeps_cacheBytecode _ _).bind fun _ =>
      ((keeps_validateCached _ _ _).onErr (keeps_removeCacheEntry _)).bind fun _ =>
        keeps_saveMetadata _ _

/-- A world that has no more verdicts, and under `key` only bytecode that was there before or is
that of the image `d`. -/
def WritesAt (key : String) (d : Digest) (w w' : CacheWorld) : Prop :=
  w'.accepted = w.accepted ∧
    ∀ k, ∀ f ∈ (w'.cache k).bytecode, f ∈ (w.cache k).bytecode ∨ k = key ∧ f.origin.image = d

instance (key : String) (d : Digest) : Std.Refl (WritesAt key d) :=
  ⟨fun _ => ⟨rfl, fun _ _ hf => .inl hf⟩⟩

instance (key : String) (d : Digest) : IsTrans CacheWorld (WritesAt key d) :=
  ⟨fun _ _ _ h₁ h₂ => ⟨h₂.1.trans h₁.1, fun k f hf => (h₂.2 k f hf).elim (h₁.2 k f) .inr⟩⟩

theorem keeps_atEntry {α : Type} (key : String) {m : Proc Entry String α}
    (hm : Keeps (Writes origin) m) : Keeps (WritesAt key origin.image) (atEntry key m) := by
  intro w
  have hk := hm (w.cache key)
  have hstate : (atEntry key m w).state =
      { w with cache := Function.update w.cache key (m (w.cache key)).state } := by
    unfold atEntry
    cases m (w.cache key) <;> rfl
  rw [hstate]
  refine ⟨rfl, fun k f hf => ?_⟩
  by_cases hkey : k = key
  · subst hkey
    simp only [Function.update_self] at hf
    exact (hk f hf).imp_right fun ho => ⟨rfl, by rw [ho]⟩
  · simp only [Function.update_of_ne hkey] at hf
    exact .inl hf

theorem resolveVerified_eq_err {url : String} {e : String}
    (h : resolveVerified F env v url w = .err e w') : w' = w := by
  unfold resolveVerified at h
  cases hr : F.parseReference url with
  | none =>
    simp only [hr] at h
    cases h
    rfl
  | some reference =>
    simp only [hr] at h
    rcases bind_eq_err.mp h with h1 | ⟨desc, w1, h1, h⟩
    · obtain ⟨_, h1, -⟩ := mapErr_eq_err.mp h1
      exact (lift_eq_err.mp h1).2.symm
    · obtain ⟨-, rfl⟩ := lift_eq_ok.mp (mapErr_eq_ok.mp h1)
      rcases bind_eq_err.mp h with h2 | ⟨status, w2, -, h⟩
      · obtain ⟨_, h2, -⟩ := mapErr_eq_err.mp h2
        exact (lift_eq_err.mp h2).2.symm
      · cases h

/-- A verdict under a configuration that requires signatures is that of a signature. -/
def Verdict.Sound (x : Verdict) : Prop :=
  x.signing.mustRequireSignatures = true → x.status = .verified

/-- What a pull may do to the world, whatever becomes of it: sound verdicts are added, and the
bytecode under its key, if it is not what was there before, is that of an image its verifier has
accepted. -/
structure Fills (signing : SigningConfig) (key : String) (w w' : CacheWorld) : Prop where
  kept : ∀ x ∈ w.accepted, x ∈ w'.accepted
  sound : ∀ x ∈ w'.accepted, x ∈ w.accepted ∨ x.Sound
  bytecode : ∀ k, ∀ f ∈ (w'.cache k).bytecode, f ∈ (w.cache k).bytecode ∨
    k = key ∧ ∃ status, ⟨signing, f.origin.image, status⟩ ∈ w'.accepted

theorem Fills.refl {signing : SigningConfig} {key : String} : Fills signing key w w :=
  ⟨fun _ hx => hx, fun _ hx => .inl hx, fun _ _ hf => .inl hf⟩

theorem pullFromRegistry_fills (ref : ImageRef)
    (w : CacheWorld) (hv : fromSigningConfig F env.signing = .ok v) :
    Fills env.signing (F.cacheKey ref.url) w (pullFromRegistry F env v ref w).state := by
  unfold pullFromRegistry
  cases h1 : resolveVerified F env v ref.url w with
  | err e w1 =>
    rw [bind_of_err h1, resolveVerified_eq_err h1]
    exact .refl
  | ok desc w1 =>
    rw [bind_of_ok h1]
    obtain ⟨reference, status, -, -, hver, rfl⟩ := resolveVerified_eq_ok h1
    -- once the verdict is in the log, the rest of the pull writes bytecode of that image only
    have hrest := ((Keeps.lift (download F env.registry env.hostArch desc)).bind fun d =>
      (Keeps.lift (extractLayer F env.faults d.layer)).bind fun bytecode =>
        (keeps_atEntry (F.cacheKey ref.url) (keeps_publish F env.hostBigEndian env.faults bytecode
          ⟨d.selected.digest, d.programs, d.maps⟩ ⟨env.pull, desc.digest⟩)).bind fun _ =>
            Keeps.pure (⟨F.cacheKey ref.url, d.programs, d.maps, ref.url, d.selected.digest,
              ref.pullPolicy, some d⟩ : PulledImage))
      ⟨w.cache, ⟨env.signing, desc.digest, status⟩ :: w.accepted⟩
    obtain ⟨hacc, hcache⟩ := hrest
    refine ⟨fun x hx => ?_, fun x hx => ?_, fun k f hf => ?_⟩
    · rw [hacc]
      exact mem_cons_of_mem _ hx
    · rw [hacc] at hx
      rcases mem_cons.mp hx with rfl | hx
      · exact .inr fun hreq => status_of_mustRequireSignatures hreq hv hver
      · exact .inl hx
    · refine (hcache k f hf).imp_right fun ⟨hk, him⟩ => ⟨hk, status, ?_⟩
      rw [hacc, him]
      exact mem_cons_self

theorem pullWith_fills (F : Formats) (env : PullEnv) (ref : ImageRef) (w : CacheWorld) :
    Fills env.signing (F.cacheKey ref.url) w (pullWith F env ref w).state := by
  unfold pullWith
  cases hv : fromSigningConfig F env.signing with
  | error e => exact .refl
  | ok v =>
    show Fills env.signing (F.cacheKey ref.url) w (pull F env v ref w).state
    unfold pull
    rw [read_bind]
    cases cached F ref w with
    | some hit => exact .refl
    | none =>
      by_cases hn : ref.pullPolicy = .never
      · simp only [hn, if_true]
        exact .refl
      · simp only [hn, if_false]
        exact pullFromRegistry_fills ref w hv

/-- The verdicts are sound, and the bytecode under `key` is that of an image accepted under one
configuration. -/
structure FilledUnder (signing : SigningConfig) (key : String) (w : CacheWorld) : Prop where
  sound : ∀ x ∈ w.accepted, x.Sound
  bytecode : ∀ f ∈ (w.cache key).bytecode, ∃ status, ⟨signing, f.origin.image, status⟩ ∈ w.accepted

theorem FilledUnder.step {signing signing' : SigningConfig} {key key' : String}
    (h : FilledUnder signing key w) (hs : Fills signing' key' w w')
    (hsame : key' = key → signing' = signing) : FilledUnder signing key w' := by
  refine ⟨fun x hx => (hs.sound x hx).elim (h.sound x) id, fun f hf => ?_⟩
  rcases hs.bytecode key f hf with hf | ⟨hkey, status, hx⟩
  · obtain ⟨status, hx⟩ := h.bytecode f hf
    exact ⟨status, hs.kept _ hx⟩
  · exact ⟨status, hsame hkey.symm ▸ hx⟩

theorem filledUnder_afterPulls (F : Formats) (signing : SigningConfig) (key : String)
    (calls : List (PullEnv × ImageRef))
    (hsame : ∀ c ∈ calls, F.cacheKey c.2.url = key → c.1.signing = signing) :
    FilledUnder signing key (afterPulls F calls) := by
  have hinit : FilledUnder signing key CacheWorld.empty := by
    constructor
    · intro x hx
      simp [CacheWorld.empty] at hx
    · intro f hf
      simp [CacheWorld.empty, Entry.empty] at hf
  unfold afterPulls
  -- induction on the history, over the world it starts from
  generalize CacheWorld.empty = w at hinit
  induction calls generalizing w with
  | nil => exact hinit
  | cons c calls ih =>
    apply ih (fun c' hc' => hsame c' (mem_cons_of_mem _ hc'))
    exact hinit.step (pullWith_fills F c.1 c.2 w) (hsame c mem_cons_self)

/-- When every pull of a URL is made under the one configuration, and it requires signatures, every
pull of it that succeeds returns bytecode of an image accepted under it. -/
theorem trusted_of_same_signing (F : Formats) (calls : List (PullEnv × ImageRef)) (env : PullEnv)
    (ref : ImageRef) (img : PulledImage) (w' : CacheWorld)
    (hreq : env.signing.mustRequireSignatures = true)
    (hsame : ∀ c ∈ calls, F.cacheKey c.2.url = F.cacheKey ref.url → c.1.signing = env.signing)
    (h : pullWith F env ref (afterPulls F calls) = .ok img w') : Trusted env.signing w' img := by
  have hinv := filledUnder_afterPulls F env.signing (F.cacheKey ref.url) calls hsame
  rw [trusted_iff_cacheTrusted hreq h]
  intro hit hhit
  obtain ⟨status, hx⟩ := hinv.bytecode hit.1 (bytecode_of_cached hhit)
  have hstatus : status = .verified := hinv.sound _ hx hreq
  rwa [hstatus] at hx

theorem trusted_of_same_signing_sample :
    let o := pullWith Sample.formats (Sample.env Sample.enforcing 2 1) Sample.ref
      (afterPulls Sample.formats [(Sample.env Sample.enforcing 2 0, Sample.ref)])
    ∃ img, Trusted Sample.enforcing o.state img := by
  intro o
  obtain ⟨img, h⟩ := Outcome.eq_ok_of_isOk (o := o) rfl
  exact ⟨img, trusted_of_same_signing _ _ _ _ _ _ rfl (fun c hc _ => mem_singleton.1 hc ▸ rfl) h⟩

end Bpfman.Image
