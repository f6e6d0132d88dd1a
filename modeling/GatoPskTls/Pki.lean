import GatoPskTls.DerCertificate
import GatoPskTls.Handshake
import GatoPskTls.KeySchedule

/-!
# The certificate verifier

The `rustpki` verifier: the walk along the chain, the checks of one certificate against its
issuer, the match of the host name, and the check of the CertificateVerify. The signature crates
stand behind `SignatureCrate`; a feature that is switched off is a crate that is not there. What
`unwrap` does to a conversion that fails is a panic here as well.
-/
namespace GatoPskTls

open Stateful ParseBuffer

/-- Which bytes a crate takes for a key and for a signature, and its check. -/
structure SignatureCrate where
  key : Bytes → Bool
  signature : Bytes → Bool
  verify : (key message signature : Bytes) → Bool

namespace SignatureCrate

def check (crate : SignatureCrate) (keyError signatureError : Stop) (message key : Bytes)
    (signature : BitStringRef) : Except Stop Bool :=
  if crate.key key then
    match signature with
    | none => .error signatureError
    | some signature =>
        if crate.signature signature then .ok (crate.verify key message signature)
        else .error signatureError
  else .error keyError

/-- The key is made an array of 32 bytes first. -/
def checkArray (crate : SignatureCrate) (keyError signatureError : Stop) (message key : Bytes)
    (signature : BitStringRef) : Except Stop Bool :=
  if key.length = 32 then crate.check keyError signatureError message key signature
  else .error .panic

end SignatureCrate

structure RsaCrate where
  pssSha256 : SignatureCrate
  pssSha384 : SignatureCrate
  pssSha512 : SignatureCrate
  pkcs1v15Sha256 : SignatureCrate
  pkcs1v15Sha384 : SignatureCrate
  pkcs1v15Sha512 : SignatureCrate

/-- The crates the verifier calls. -/
structure Crates where
  der : Der
  p256 : SignatureCrate
  p384 : Option SignatureCrate
  ed25519 : Option SignatureCrate
  rsa : Option RsaCrate

namespace Pki

def invalidScheme : Except Stop Bool := .error (.err .invalidSignatureScheme)

/-- One of the unwraps is on the key: the RSA key of the first PSS scheme. -/
def checkScheme (crates : Crates) (message key : Bytes) (verify : CertificateVerifyRef) :
    Except Stop Bool :=
  let decodeError : Stop := .err .decodeError
  match verify.signatureScheme with
  | .ecdsaSecp256r1Sha256 =>
      crates.p256.check decodeError decodeError message key verify.signature
  | .ecdsaSecp384r1Sha384 =>
      match crates.p384 with
      | some p384 => p384.check decodeError decodeError message key verify.signature
      | none => invalidScheme
  | .ed25519 =>
      match crates.ed25519 with
      | some ed25519 => ed25519.checkArray decodeError decodeError message key verify.signature
      | none => invalidScheme
  | .rsaPssRsaeSha256 =>
      match crates.rsa with
      | some rsa => rsa.pssSha256.check .panic decodeError message key verify.signature
      | none => invalidScheme
  | .rsaPssRsaeSha384 =>
      match crates.rsa with
      | some rsa => rsa.pssSha384.check decodeError decodeError message key verify.signature
      | none => invalidScheme
  | .rsaPssRsaeSha512 =>
      match crates.rsa with
      | some rsa => rsa.pssSha512.check decodeError decodeError message key verify.signature
      | none => invalidScheme
  | _ => invalidScheme

def decoded (crates : Crates) (certificate : Bytes) : Except Stop DecodedCertificate :=
  match crates.der.certificate certificate with
  | some certificate => .ok certificate
  | none => .error (.err .decodeError)

def publicKey (certificate : DecodedCertificate) : Except Stop Bytes :=
  match certificate.tbsCertificate.publicKey with
  | some key => .ok key
  | none => .error (.err .decodeError)

/-- The key of the first certificate. -/
def leafKey (crates : Crates) (certificate : CertificateRef) : Except Stop Bytes :=
  match certificate.entries.head? with
  | some (.x509 data) => do publicKey (← decoded crates data)
  | _ => .error (.err .decodeError)

def verifySignature (crates : Crates) (message : Bytes) (certificate : CertificateRef)
    (verify : CertificateVerifyRef) : Except Stop Unit := do
  let key ← leafKey crates certificate
  let verified ← checkScheme crates message key verify
  if verified then return ()
  else throw (.err .invalidSignature)

structure CertificateNames where
  commonName : Option Bytes
  sanDnsNames : List Bytes
  deriving DecidableEq, Repr

def getCertTime : Time → Nat
  | .utcTime secs => secs
  | .generalTime secs => secs

/-- The certificate's first element, the signed part. -/
def getCertificateTlvBytes (der : Der) (input : Bytes) : Option Bytes := do
  guard (der.sliceReader input)
  let top ← der.header input
  guard (top.tag = TAG_SEQUENCE)
  let header ← der.header top.rest
  guard (header.tag = TAG_SEQUENCE)
  guard (header.length ≤ header.rest.length)
  return top.rest.take (top.rest.length - header.rest.length + header.length)

/-- What is known of a certificate when its signature is looked at. -/
structure Examined where
  certificate : DecodedCertificate
  caPublicKey : Bytes
  names : CertificateNames
  data : Bytes
  deriving DecidableEq, Repr

def orDecodeError {α : Type} : Option α → Except Stop α
  | some a => .ok a
  | none => .error (.err .decodeError)

def inTime (validity : Validity) : Option Nat → Bool
  | none => true
  | some now => getCertTime validity.notBefore ≤ now && now ≤ getCertTime validity.notAfter

/-- The checks of `verify_certificate` ahead of the signature. -/
def examine (crates : Crates) (caCertificate : DecodedCertificate) (certificate : Bytes)
    (now : Option Nat) : Except Stop Examined := do
  let parsed ← decoded crates certificate
  let caPublicKey ← publicKey caCertificate
  let commonName ← orDecodeError (extractCommonName crates.der parsed.tbsCertificate)
  let sanDnsNames ← orDecodeError (extractSanDnsNames crates.der parsed.tbsCertificate)
  if inTime parsed.tbsCertificate.validity now then
    let data ← orDecodeError (getCertificateTlvBytes crates.der certificate)
    return ⟨parsed, caPublicKey, ⟨commonName, sanDnsNames⟩, data⟩
  else throw (.err .invalidCertificate)

def checkAlgorithm (crates : Crates) (examined : Examined) : Except Stop Bool :=
  let decodeError : Stop := .err .decodeError
  let invalidData : Stop := .err (.parseError .invalidData)
  let key := examined.caPublicKey
  let signature := examined.certificate.signature
  let algorithm := examined.certificate.signatureAlgorithm
  if algorithm = .ECDSA_SHA256 then
    crates.p256.check decodeError invalidData examined.data key signature
  else if algorithm = .ECDSA_SHA384 then
    match crates.p384 with
    | some p384 => p384.check decodeError invalidData examined.data key signature
    | none => invalidScheme
  else if algorithm = .ED25519 then
    match crates.ed25519 with
    | some ed25519 => ed25519.checkArray decodeError invalidData examined.data key signature
    | none => invalidScheme
  else match crates.rsa with
    | some rsa =>
        if algorithm = .RSA_PKCS1_SHA256 then
          rsa.pkcs1v15Sha256.check decodeError invalidData examined.data key signature
        else if algorithm = .RSA_PKCS1_SHA384 then
          rsa.pkcs1v15Sha384.check decodeError invalidData examined.data key signature
        else if algorithm = .RSA_PKCS1_SHA512 then
          rsa.pkcs1v15Sha512.check decodeError invalidData examined.data key signature
        else invalidScheme
    | none => invalidScheme

def verifyCertificate (crates : Crates) (verifier certificate : CertificateEntryRef)
    (now : Option Nat) : Except Stop CertificateNames :=
  match verifier with
  | .rawPublicKey _ => .error (.err .decodeError)
  | .x509 verifier => do
      let caCertificate ← decoded crates verifier
      match certificate with
      | .rawPublicKey _ => throw (.err .invalidCertificate)
      | .x509 certificate => do
          let examined ← examine crates caCertificate certificate now
          let verified ← checkAlgorithm crates examined
          if verified then return examined.names
          else throw (.err .invalidCertificate)

/-- The iterator over a chain, from the entry next to the CA to the first. -/
structure CertificateChain where
  prev : CertificateEntryRef
  entries : List CertificateEntryRef
  idx : Int

namespace CertificateChain

def new (ca : CertificateEntryRef) (chain : CertificateRef) : CertificateChain :=
  ⟨ca, chain.entries, chain.entries.length - 1⟩

def next (chain : CertificateChain) :
    Except Stop (Option ((CertificateEntryRef × CertificateEntryRef) × CertificateChain)) :=
  if chain.idx < 0 then .ok none
  else match chain.entries[chain.idx.toNat]? with
    | none => .error .panic
    | some cur => .ok (some ((chain.prev, cur), { chain with prev := cur, idx := chain.idx - 1 }))

end CertificateChain

/-- The loop over a chain of at most `n` entries. The clock is read for each of them. -/
def verifyEach (crates : Crates) (now : Nat → Option Nat) :
    Nat → CertificateChain → CertificateNames → Except Stop CertificateNames
  | 0, _, names => .ok names
  | n+1, chain, names => do
      match ← chain.next with
      | none => return names
      | some ((p, q), chain) => do
          let names ← verifyCertificate crates p q (now n)
          verifyEach crates now n chain names

def sliceFrom (bytes : Bytes) (start : Nat) : Except Stop Bytes :=
  if start ≤ bytes.length then .ok (bytes.drop start) else .error .panic

def toAsciiLowercase (b : UInt8) : UInt8 := if 0x41 ≤ b ∧ b ≤ 0x5A then b + 0x20 else b

def eqIgnoringCase (a b : Bytes) : Bool := a.map toAsciiLowercase = b.map toAsciiLowercase

def DOT : UInt8 := 0x2E
def STAR : UInt8 := 0x2A

/-- Letters, digits, `-` and `.`. -/
def isHostByte (b : UInt8) : Bool :=
  (0x61 ≤ b && b ≤ 0x7A) || (0x41 ≤ b && b ≤ 0x5A) || (0x30 ≤ b && b ≤ 0x39) || b = 0x2D || b = DOT

/-- A scan of the name: the number of labels and of stars, if no other byte is met. -/
def scanName (allowStar : Bool) : Bytes → (labels stars : Nat) → Option (Nat × Nat)
  | [], labels, stars => some (labels, stars)
  | b :: bytes, labels, stars =>
      if isHostByte b || (allowStar && b = STAR) then
        scanName allowStar bytes (if b = DOT then labels + 1 else labels)
          (if b = STAR then stars + 1 else stars)
      else none

def tlsHostnameMatchImpl (cn host : Bytes) : Except Stop Bool :=
  match scanName true cn 1 0 with
  | none => .ok false
  | some (cnLabels, stars) =>
      match scanName false host 1 0 with
      | none => .ok false
      | some (hostLabels, _) =>
          if stars = 0 then .ok (eqIgnoringCase cn host)
          else if stars ≠ 1 then .ok false
          else if ¬[STAR, DOT] <+: cn then .ok false
          else if cnLabels < 3 then .ok false
          else if cnLabels ≠ hostLabels then .ok false
          else do
            let suffix ← sliceFrom cn 2
            match host.findIdx? (· = DOT) with
            | none => return false
            | some dotIdx => do
                let hostSuffix ← sliceFrom host (dotIdx + 1)
                return eqIgnoringCase suffix hostSuffix

/-- Without a host name only a certificate without names will do. -/
def tlsHostnameMatch (names : CertificateNames) : Option Bytes → Except Stop Bool
  | none => .ok (names.commonName.isNone && names.sanDnsNames.isEmpty)
  | some hostname => do
      if ← names.sanDnsNames.anyM (tlsHostnameMatchImpl · hostname) then return true
      else match names.commonName with
        | some cn => tlsHostnameMatchImpl cn hostname
        | none => return false

end Pki

/-- The owned copy of a certificate message. -/
structure Certificate where
  requestContext : Bytes
  entriesData : Bytes
  deriving DecidableEq, Repr

def Certificate.tryFrom (certSize : Nat) (cert : CertificateRef) : Except TlsError Certificate :=
  if cert.requestContext.length ≤ 256 ∧ cert.rawEntries.length ≤ certSize then
    .ok ⟨cert.requestContext, cert.rawEntries⟩
  else .error .outOfMemory

def CertificateRef.tryFrom (cert : Certificate) : Except TlsError CertificateRef :=
  (outcome (CertificateEntryRef.parseVector 16 (.new cert.entriesData))).map
    (⟨cert.entriesData, cert.requestContext, ·⟩)

/-- The calls of `verify_certificate` are numbered, for the clock; no code reads the number. A
transcript is kept together with its certificate. -/
structure CertVerifier where
  ca : CertificateEntryRef
  host : Option Bytes
  certificateTranscript : Option Bytes
  certificate : Option Certificate
  calls : Nat
  certificate_of_transcript : certificateTranscript.isSome → certificate.isSome

namespace CertVerifier

open Pki

variable {cs : TlsCipherSuite}

abbrev M := EStateM Stop CertVerifier

theorem nothing_kept : (none : Option Bytes).isSome → (none : Option Certificate).isSome := nofun

theorem kept_together (transcript : Bytes) (certificate : Certificate) :
    (some transcript).isSome → (some certificate).isSome := fun _ => rfl

def new (ca : CertificateEntryRef) : CertVerifier := ⟨ca, none, none, none, 0, nothing_kept⟩

def setHostnameVerification (hostname : Bytes) : M Unit :=
  if hostname.length ≤ 64 then modify fun v => { v with host := some hostname }
  else throw (.err .insufficientSpace)

def setCertificate (transcript : Bytes) (certificate : Certificate) (v : CertVerifier) :
    CertVerifier where
  ca := v.ca
  host := v.host
  certificateTranscript := some transcript
  certificate := some certificate
  calls := v.calls
  certificate_of_transcript := kept_together transcript certificate

def dropTranscript (v : CertVerifier) : CertVerifier where
  ca := v.ca
  host := v.host
  certificateTranscript := none
  certificate := v.certificate
  calls := v.calls
  certificate_of_transcript := nofun

/-- `clock c n` is the time when entry `n` is looked at in call `c`. -/
def verifyCertificate (crates : Crates) (certSize : Nat) (clock : Nat → Nat → Option Nat)
    (transcript : Bytes) (cert : CertificateRef) : M Unit := do
  let v ← get
  set { v with calls := v.calls + 1 }
  let names ← fromResult
    (verifyEach crates (clock v.calls) cert.entries.length (.new v.ca cert) ⟨none, []⟩)
  if ← fromResult (tlsHostnameMatch names v.host) then do
    let certificate ← fromResult ((Certificate.tryFrom certSize cert).mapError .err)
    modify (setCertificate transcript certificate)
  else throw (.err .invalidCertificate)

/-- `"TLS 1.3, server CertificateVerify\x00"`. -/
def ctxStr : Bytes := ascii "TLS 1.3, server CertificateVerify".toList ++ [0]

/-- The message is put together in 146 bytes. -/
def signedMessage (P : Primitives cs) (transcript : Bytes) : Except Stop Bytes :=
  let msg := List.replicate 64 0x20 ++ ctxStr ++ (P.hash transcript).val
  if msg.length ≤ 146 then .ok msg else .error (.err .encodeError)

def verifySignature (P : Primitives cs) (crates : Crates) (verify : CertificateVerifyRef) :
    M Unit := do
  let v ← get
  match v.certificateTranscript with
  | none => throw .panic
  | some transcript => do
      set v.dropTranscript
      let msg ← fromResult (signedMessage P transcript)
      match v.certificate with
      | none => throw .panic
      | some certificate => do
          let certificate ← fromResult ((CertificateRef.tryFrom certificate).mapError .err)
          fromResult (Pki.verifySignature crates msg certificate verify)

end CertVerifier

end GatoPskTls
