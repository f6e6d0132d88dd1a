import GatoPskTls.PkiSafety

/-!
# The other certificate verifier

The verifier over the `webpki` crate: it looks at the first certificate only and leaves the checks
to that crate, which stands behind `Webpki.Crate`. The message its CertificateVerify is checked over
is put together in a buffer of its own size. Both verifiers check the same message exactly under the
suite with the shorter hash.
-/
namespace GatoPskTls

open Stateful

namespace Webpki

inductive SignatureAlgorithm
  | ecdsaP256Sha256
  | ecdsaP384Sha384
  | ed25519
  | rsaPkcs1Sha256
  | rsaPkcs1Sha384
  | rsaPkcs1Sha512
  | rsaPssSha256LegacyKey
  | rsaPssSha384LegacyKey
  | rsaPssSha512LegacyKey
  deriving DecidableEq, Repr

/-- What the crate accepts as a trust anchor, as a certificate and as a name, and its checks. -/
structure Crate where
  trustAnchor : Bytes → Bool
  endEntityCert : Bytes → Bool
  verifyForUsage : (cert trust : Bytes) → (time : Nat) → Bool
  subjectName : Bytes → Bool
  validForSubjectName : (cert name : Bytes) → Bool
  verifySignature : (cert : Bytes) → SignatureAlgorithm → (message signature : Bytes) → Bool

/-- A crate that finds nothing wrong. -/
def Sample.crate : Crate :=
  ⟨fun _ => true, fun _ => true, fun _ _ _ => true, fun _ => true, fun _ _ => true, fun _ _ _ _ => true⟩

/-- The RSA schemes need the feature `alloc`. -/
def signatureAlgorithm (alloc : Bool) : SignatureScheme → Except TlsError SignatureAlgorithm
  | .ecdsaSecp256r1Sha256 => .ok .ecdsaP256Sha256
  | .ecdsaSecp384r1Sha384 => .ok .ecdsaP384Sha384
  | .ed25519 => .ok .ed25519
  | .rsaPkcs1Sha256 => if alloc then .ok .rsaPkcs1Sha256 else .error .invalidSignatureScheme
  | .rsaPkcs1Sha384 => if alloc then .ok .rsaPkcs1Sha384 else .error .invalidSignatureScheme
  | .rsaPkcs1Sha512 => if alloc then .ok .rsaPkcs1Sha512 else .error .invalidSignatureScheme
  | .rsaPssRsaeSha256 => if alloc then .ok .rsaPssSha256LegacyKey else .error .invalidSignatureScheme
  | .rsaPssRsaeSha384 => if alloc then .ok .rsaPssSha384LegacyKey else .error .invalidSignatureScheme
  | .rsaPssRsaeSha512 => if alloc then .ok .rsaPssSha512LegacyKey else .error .invalidSignatureScheme
  | _ => .error .invalidSignatureScheme

def verifySignature (crate : Crate) (alloc : Bool) (message : Bytes) (certificate : CertificateRef)
    (verify : CertificateVerifyRef) : Except TlsError Unit :=
  match certificate.entries.head? with
  | some (.x509 cert) =>
      if crate.endEntityCert cert then do
        let pkisig ← signatureAlgorithm alloc verify.signatureScheme
        if crate.verifySignature cert pkisig message verify.signature then .ok ()
        else .error .invalidSignature
      else .error .decodeError
  | _ => .error .invalidSignature

/-- Without a clock the time is zero. -/
def verifyCertificate (crate : Crate) (verifyHost : Option Bytes) (ca : CertificateEntryRef)
    (certificate : CertificateRef) (now : Option Nat) : Except TlsError Unit :=
  match ca with
  | .rawPublicKey _ => .error .invalidCertificate
  | .x509 ca =>
      if crate.trustAnchor ca then
        match certificate.entries.head? with
        | some (.x509 cert) =>
            if crate.endEntityCert cert then
              let verified := crate.verifyForUsage cert ca (now.getD 0)
              let hostVerified := verifyHost.all fun name =>
                crate.subjectName name && crate.validForSubjectName cert name
              if verified && hostVerified then .ok () else .error .invalidCertificate
            else .error .decodeError
        | _ => .error .invalidCertificate
      else .error .decodeError

/-- A transcript is kept together with its certificate. -/
structure CertVerifier where
  ca : CertificateEntryRef
  host : Option Bytes
  certificateTranscript : Option Bytes
  certificate : Option Certificate
  certificate_of_transcript : certificateTranscript.isSome → certificate.isSome

namespace CertVerifier

variable {cs : TlsCipherSuite}

abbrev M := EStateM Stop CertVerifier

def new (ca : CertificateEntryRef) : CertVerifier :=
  ⟨ca, none, none, none, GatoPskTls.CertVerifier.nothing_kept⟩

def setHostnameVerification (hostname : Bytes) : M Unit :=
  if hostname.length ≤ 64 then modify fun v => { v with host := some hostname }
  else throw (.err .insufficientSpace)

def setCertificate (transcript : Bytes) (certificate : Certificate) (v : CertVerifier) :
    CertVerifier :=
  ⟨v.ca, v.host, some transcript, some certificate,
    GatoPskTls.CertVerifier.kept_together transcript certificate⟩

def dropTranscript (v : CertVerifier) : CertVerifier := ⟨v.ca, v.host, none, v.certificate, nofun⟩

def verifyCertificate (crate : Crate) (certSize : Nat) (now : Option Nat) (transcript : Bytes)
    (cert : CertificateRef) : M Unit := do
  let v ← get
  fromResult ((Webpki.verifyCertificate crate v.host v.ca cert now).mapError .err)
  let certificate ← fromResult ((Certificate.tryFrom certSize cert).mapError .err)
  modify (setCertificate transcript certificate)

/-- `resize` and `extend_from_slice` on a vector that holds `capacity` bytes. -/
def extendWithin (capacity : Nat) (msg more : Bytes) : Except Stop Bytes :=
  if msg.length + more.length ≤ capacity then .ok (msg ++ more) else .error (.err .encodeError)

/-- The message is put together in 130 bytes. -/
def signedMessage (P : Primitives cs) (transcript : Bytes) : Except Stop Bytes := do
  let msg ← extendWithin 130 [] (List.replicate 64 0x20)
  let msg ← extendWithin 130 msg GatoPskTls.CertVerifier.ctxStr
  extendWithin 130 msg (P.hash transcript).val

def verifySignature (P : Primitives cs) (crate : Crate) (alloc : Bool)
    (verify : CertificateVerifyRef) : M Unit := do
  let v ← get
  match v.certificateTranscript with
  | none => throw .panic
  | some transcript => do
      set v.dropTranscript
      let msg ← fromResult (signedMessage P transcript)
      match v.certificate with
      | none => throw .panic
      | some certificate => do
          let certificate ← fromResult ((CertificateRef.tryFrom certificate).mapError .err)
          fromResult ((Webpki.verifySignature crate alloc msg certificate verify).mapError .err)

/-- A CertificateVerify is checked over `msg` when the transcript is `transcript`. -/
def SignedOver (P : Primitives cs) (transcript msg : Bytes) : Prop :=
  ∀ (crate : Crate) (alloc : Bool) (v : CertVerifier) (certificate : Certificate)
    (verify : CertificateVerifyRef), v.certificateTranscript = some transcript →
    v.certificate = some certificate →
    outcome (verifySignature P crate alloc verify v) = do
      let certificate ← (CertificateRef.tryFrom certificate).mapError .err
      (Webpki.verifySignature crate alloc msg certificate verify).mapError .err

variable {P : Primitives cs} {transcript : Bytes}

/-- There is room for a hash of 32 bytes. -/
theorem signedMessage_eq (P : Primitives cs) (transcript : Bytes) : signedMessage P transcript =
    if cs.hashLen ≤ 32 then
      .ok (List.replicate 64 0x20 ++ GatoPskTls.CertVerifier.ctxStr ++ (P.hash transcript).val)
    else .error (.err .encodeError) := by
  have hblank : extendWithin 130 [] (List.replicate 64 0x20) = .ok (List.replicate 64 0x20) :=
    if_pos (by decide)
  have hfront : extendWithin 130 (List.replicate 64 0x20) GatoPskTls.CertVerifier.ctxStr =
      .ok (List.replicate 64 0x20 ++ GatoPskTls.CertVerifier.ctxStr) := if_pos (by decide)
  have hlen : (List.replicate 64 0x20 ++ GatoPskTls.CertVerifier.ctxStr).length = 98 := by decide
  rw [signedMessage, hblank, ok_bind, hfront, ok_bind, extendWithin, hlen, (P.hash transcript).property]
  simp only [show 98 + cs.hashLen ≤ 130 ↔ cs.hashLen ≤ 32 by omega]

theorem signedOver_of_signedMessage {msg : Bytes} (h : signedMessage P transcript = .ok msg) :
    SignedOver P transcript msg := by
  intro crate alloc v certificate verify htranscript hcertificate
  simp only [verifySignature, get_bind_apply, htranscript, set_bind_apply, h, fromResult_ok_bind,
    hcertificate]
  exact outcome_fromResult_bind _ _ _

/-- A verifier that has accepted a certificate behind the transcript given. -/
def holding (transcript : Bytes) : CertVerifier :=
  setCertificate transcript ⟨[], []⟩ (.new (.x509 []))

/-- A message that is not built is not checked, whatever the certificate. -/
theorem not_signedOver {msg : Bytes} (h : signedMessage P transcript = .error (.err .encodeError)) :
    ¬SignedOver P transcript msg := by
  intro hsigned
  have hfails : outcome (verifySignature P Sample.crate false ⟨.ed25519, []⟩
      (holding transcript)) = .error (.err .encodeError) := by
    simp only [verifySignature, get_bind_apply, holding, setCertificate, set_bind_apply, h]
    rfl
  have hchecked := hsigned Sample.crate false (holding transcript) ⟨[], []⟩ ⟨.ed25519, []⟩ rfl rfl
  rw [hfails] at hchecked
  cases hchecked

end CertVerifier

end Webpki

namespace CertVerifier

variable {cs : TlsCipherSuite}

/-- The same for the verifier over the signature crates. -/
def SignedOver (P : Primitives cs) (transcript msg : Bytes) : Prop :=
  ∀ (crates : Crates) (v : CertVerifier) (certificate : Certificate) (verify : CertificateVerifyRef),
    v.certificateTranscript = some transcript → v.certificate = some certificate →
    outcome (verifySignature P crates verify v) = do
      let certificate ← (CertificateRef.tryFrom certificate).mapError .err
      Pki.verifySignature crates msg certificate verify

theorem signedOver (P : Primitives cs) (transcript : Bytes) : SignedOver P transcript
    (List.replicate 64 0x20 ++ ctxStr ++ (P.hash transcript).val) := by
  intro crates v certificate verify htranscript hcertificate
  simp only [verifySignature, get_bind_apply, htranscript, set_bind_apply, signedMessage_eq,
    fromResult_ok_bind, hcertificate]
  exact outcome_fromResult_bind _ _ _

/-- The verifiers check one message, 64 blanks, the context string and the hash of the transcript,
exactly under the suite whose hash has 32 bytes. -/
theorem same_message_iff (P : Primitives cs) (transcript : Bytes) :
    (∃ msg, msg = List.replicate 64 0x20 ++
          (ascii "TLS 1.3, server CertificateVerify".toList ++ [0]) ++ (P.hash transcript).val ∧
        SignedOver P transcript msg ∧ Webpki.CertVerifier.SignedOver P transcript msg) ↔
      cs = .aes128GcmSha256 := by
  constructor
  · rintro ⟨msg, -, -, hsigned⟩
    cases cs with
    | aes128GcmSha256 => rfl
    | aes256GcmSha384 =>
        have hmessage := Webpki.CertVerifier.signedMessage_eq P transcript
        rw [if_neg (by decide)] at hmessage
        exact absurd hsigned (Webpki.CertVerifier.not_signedOver hmessage)
  · rintro rfl
    have hmessage := Webpki.CertVerifier.signedMessage_eq P transcript
    rw [if_pos (by decide)] at hmessage
    exact ⟨_, rfl, signedOver P transcript, Webpki.CertVerifier.signedOver_of_signedMessage hmessage⟩

end CertVerifier

namespace Webpki.Sample

def cert : CertificateRef := ⟨[0, 0, 1, 7, 0, 0], [], [.x509 [7]]⟩

/-- The certificate is accepted, and then the signature over the transcript `[5]` is looked at. -/
def run (cs : TlsCipherSuite) : CertVerifier.M Unit := do
  CertVerifier.verifyCertificate crate 64 none [5] cert
  CertVerifier.verifySignature (Primitives.checksumming cs) crate false ⟨.ed25519, []⟩

/-- Under the longer hash one verifier has its 146 bytes and the other has no room for them. -/
theorem longer_hash_not_checked :
    outcome (run .aes256GcmSha384 (.new (.x509 []))) = .error (.err .encodeError) ∧
      outcome (run .aes128GcmSha256 (.new (.x509 []))) = .ok () ∧
      (GatoPskTls.CertVerifier.signedMessage (Primitives.checksumming .aes256GcmSha384) [5]).map
        List.length = .ok 146 := by
  decide +kernel

end Webpki.Sample

end GatoPskTls
