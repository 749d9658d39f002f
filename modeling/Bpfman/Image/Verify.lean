import Bpfman.Image.Registry

/-!
# Signature policy

The signing configuration decides which verifier a puller gets. With verification off, `noSign`
accepts everything; otherwise cosign is asked about the image under the configured identities, and
an image without signatures passes only where unsigned images are allowed.
-/

namespace Bpfman.Image

/-- One trusted keyless signing identity rule. -/
structure TrustedIdentityConfig where
  certificateIdentity : String
  certificateIdentityRegexp : String
  certificateOIDCIssuer : String
  certificateOIDCIssuerRegexp : String
  deriving DecidableEq, Repr

structure SigningConfig where
  allowUnsigned : Bool
  verifyEnabled : Bool
  trustedIdentities : List TrustedIdentityConfig
  deriving DecidableEq, Repr

/-- The identity policy in the form cosign expects. -/
structure SigningIdentity where
  issuer : String
  issuerRegexp : String
  subject : String
  subjectRegexp : String
  deriving DecidableEq, Repr

namespace SigningConfig

def mustRequireSignatures (c : SigningConfig) : Bool := !c.allowUnsigned && c.verifyEnabled

def shouldVerify (c : SigningConfig) : Bool := c.verifyEnabled

end SigningConfig

def anchorRegexp (pattern : String) : String := "^(?:" ++ pattern ++ ")$"

variable (F : Formats)

def wildcardRegexp (pattern : String) : Bool :=
  F.trimSpace pattern ∈ [".*", "^.*$", "^(?:.*)$"]

/-- The exact and the regexp form of one field, and whether it is configured at all. -/
def signingIdentityField (exactName exactValue regexpName regexpValue : String) :
    Except String (String × String × Bool) :=
  let exactValue := F.trimSpace exactValue
  let regexpValue := F.trimSpace regexpValue
  if exactValue ≠ "" ∧ regexpValue ≠ "" then
    .error s!"signing {exactName} and {regexpName} are mutually exclusive"
  else if regexpValue ≠ "" then
    if F.compilesRegexp regexpValue then .ok ("", anchorRegexp regexpValue, true)
    else .error s!"invalid signing {regexpName}"
  else if exactValue ≠ "" then .ok (exactValue, "", true)
  else .ok ("", "", false)

namespace TrustedIdentityConfig

def signingIdentity (c : TrustedIdentityConfig) : Except String SigningIdentity := do
  let (subject, subjectRegexp, subjectConfigured) ← signingIdentityField F
    "certificate_identity" c.certificateIdentity
    "certificate_identity_regexp" c.certificateIdentityRegexp
  let (issuer, issuerRegexp, issuerConfigured) ← signingIdentityField F
    "certificate_oidc_issuer" c.certificateOIDCIssuer
    "certificate_oidc_issuer_regexp" c.certificateOIDCIssuerRegexp
  if !subjectConfigured || !issuerConfigured then
    throw "certificate identity and OIDC issuer must be configured together"
  return ⟨issuer, issuerRegexp, subject, subjectRegexp⟩

def isAnySigner (c : TrustedIdentityConfig) : Bool :=
  wildcardRegexp F c.certificateIdentityRegexp && wildcardRegexp F c.certificateOIDCIssuerRegexp

end TrustedIdentityConfig

namespace SigningConfig

def trustedSigningIdentities (c : SigningConfig) : Except String (List SigningIdentity) := do
  let identities ← c.trustedIdentities.zipIdx.mapM fun (trusted, i) =>
    (trusted.signingIdentity F).mapError fun e => s!"trusted identity {i + 1}: {e}"
  match c.trustedIdentities.findIdx? (·.isAnySigner F) with
  | some i =>
    if 1 < c.trustedIdentities.length then
      throw s!"trusted identity {i + 1}: wildcard identity cannot be mixed with specific identities"
    else return identities
  | none => return identities

end SigningConfig

/-- A signature verifier. -/
inductive Verifier where
  | noSign
  | cosign (allowUnsigned : Bool) (identities : List SigningIdentity)
  deriving DecidableEq, Repr

/-- The identity under which cosign accepts any valid signer. -/
def anySigner : SigningIdentity := ⟨"", ".*", "", ".*"⟩

/-- The verifier described by a signing configuration. -/
def fromSigningConfig (cfg : SigningConfig) : Except String Verifier :=
  if !cfg.shouldVerify then .ok .noSign
  else do
    let identities ← cfg.trustedSigningIdentities F
    return .cosign cfg.allowUnsigned (if identities = [] then [anySigner] else identities)

/-- What cosign finds out about an image. -/
inductive CosignResult where
  | verified
  | noSignatures
  | failed (reason : String)
  deriving DecidableEq, Repr

/-- Cosign and the services behind it, at the time of one pull: its verdict on an image reference
under a list of identities. -/
abbrev Cosign := List SigningIdentity → String → CosignResult

inductive VerificationStatus where
  | disabled
  | verified
  | unsignedAccepted
  deriving DecidableEq, Repr

def verify (cosign : Cosign) (v : Verifier) (imageRef : String) :
    Except String VerificationStatus :=
  match v with
  | .noSign => .ok .disabled
  | .cosign allowUnsigned identities =>
    match cosign identities imageRef with
    | .verified => .ok .verified
    | .noSignatures =>
      if allowUnsigned then .ok .unsignedAccepted
      else .error s!"image {imageRef} has no signatures and unsigned images are not allowed"
    | .failed reason => .error s!"signature verification failed for {imageRef}: {reason}"

/-- Under a configuration that requires signatures, what the verifier lets pass is signed by one of
the identities it asked about. -/
theorem verified_of_mustRequireSignatures {F : Formats} {cfg : SigningConfig} {v : Verifier}
    {cosign : Cosign} {imageRef : String} {status : VerificationStatus}
    (hcfg : cfg.mustRequireSignatures = true) (hv : fromSigningConfig F cfg = .ok v)
    (h : verify cosign v imageRef = .ok status) :
    ∃ identities, v = .cosign false identities ∧ cosign identities imageRef = .verified := by
  simp only [SigningConfig.mustRequireSignatures, Bool.and_eq_true, Bool.not_eq_true'] at hcfg
  unfold fromSigningConfig at hv
  rw [SigningConfig.shouldVerify, hcfg.2, if_neg (by simp)] at hv
  obtain ⟨ids, -, hv⟩ := Fallible.Proc.except_bind_eq_ok.1 hv
  cases hv
  rw [hcfg.1] at h ⊢
  generalize (if ids = [] then [anySigner] else ids) = identities at h ⊢
  refine ⟨identities, rfl, ?_⟩
  cases hc : cosign identities imageRef with
  | verified => rfl
  | noSignatures => simp [verify, hc] at h
  | failed reason => simp [verify, hc] at h

end Bpfman.Image
