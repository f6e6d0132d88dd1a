import GatoPskTls.PkiSafety
import GatoPskTls.Client.Peer

/-!
# The server's flight and the certificate verifier

`process_server_verify` hands every Certificate and every CertificateVerify to the verifier as
they come. The order is nobody's concern, nor is the match of key and scheme, so a server can make
the verifier panic.
-/
namespace GatoPskTls.Client

open Stateful ParseBuffer BigEndian

variable {cs : TlsCipherSuite}

/-- A provider whose verifier is the `rustpki` one. -/
def CryptoProvider.rustpki (P : Primitives cs) (crates : Crates) (certSize : Nat)
    (clock : Nat → Nat → Option Nat) (pr : CryptoProvider CertVerifier) :
    CryptoProvider CertVerifier :=
  { pr with
    rsa := crates.rsa.isSome
    verifier := pure ()
    verifyCertificate := CertVerifier.verifyCertificate crates certSize clock
    verifySignature := CertVerifier.verifySignature P crates }

/-- The handshake messages of a flight, given by the contents of its records. -/
def verifyFlight {π : Type} (P : Primitives cs) (pr : CryptoProvider π) :
    List Bytes → Reading.M cs (Verifying π) Unit
  | [] => pure ()
  | content :: contents => do
      deliverMessages P (verifyRecord P pr) content.length (.new content)
      verifyFlight P pr contents

/-- A message that makes the verifier panic in this state. -/
def Upsets (crates : Crates) (clock : Nat → Nat → Option Nat) (v : CertVerifier) :
    ServerHandshake cs → Prop
  | .certificate cert => v.UnfitChain crates clock cert
  | .certificateVerify verify => v.UnfitVerify crates verify
  | _ => False

section

variable (P : Primitives cs) (crates : Crates) (certSize : Nat) (clock : Nat → Nat → Option Nat)
  (pr : CryptoProvider CertVerifier)

/-- The client comes to such a message in a record. -/
def MeetsUpset : Nat → ParseBuffer → Reading cs (Verifying CertVerifier) → Prop
  | 0, _, _ => False
  | n+1, buf, r => buf.remaining > 0 ∧
      ∃ read r₁, Reading.readMessage P buf r = .ok read r₁ ∧
        (Upsets crates clock r₁.captured.provider read.1 ∨
          ∃ r₂, verifyRecord P (pr.rustpki P crates certSize clock) (.handshake read.1) r₁ = .ok () r₂ ∧
            MeetsUpset n read.2 r₂)

/-- The client comes to such a message in a flight. -/
def FlightUpset : List Bytes → Reading cs (Verifying CertVerifier) → Prop
  | [], _ => False
  | content :: contents, r =>
      MeetsUpset P crates certSize clock pr content.length (.new content) r ∨
        ∃ r', deliverMessages P (verifyRecord P (pr.rustpki P crates certSize clock)) content.length
            (.new content) r = .ok () r' ∧ FlightUpset contents r'

variable {P crates certSize clock pr} {r : Reading cs (Verifying CertVerifier)}

theorem checkWith_outcome {check : Check} {verify : EStateM Stop CertVerifier Unit}
    (v : Verifying CertVerifier) :
    outcome (Verifying.checkWith (pr.rustpki P crates certSize clock) check verify v) =
      outcome (verify v.provider) := by
  simp only [Verifying.checkWith, CryptoProvider.rustpki, pure_apply]
  cases verify v.provider with
  | ok a t => rfl
  | error e t => rfl

theorem checkWith_panicsIff {F : Prop} {check : Check} {verify : EStateM Stop CertVerifier Unit}
    (h : PanicsIff F (outcome (verify r.captured.provider))) :
    PanicsIff F (outcome ((Reading.onCaptured (Verifying.checkWith
      (pr.rustpki P crates certSize clock) check verify) : Reading.M cs _ Unit) r)) := by
  refine PanicsIff.onPart ?_
  rw [checkWith_outcome]
  exact h

theorem verifyMessage_panicsIff (message : ServerHandshake cs) :
    PanicsIff (Upsets crates clock r.captured.provider message)
      (outcome (verifyRecord P (pr.rustpki P crates certSize clock) (.handshake message) r)) := by
  cases message with
  | serverHello hello => exact .err _
  | encryptedExtensions => exact .ok _
  | newSessionTicket => exact .err _
  | certificate cert =>
      simp only [verifyRecord, verifyMessage, get_bind_apply]
      exact checkWith_panicsIff (CertVerifier.verifyCertificate_panicsIff _ cert)
  | certificateVerify verify =>
      exact checkWith_panicsIff (CertVerifier.verifySignature_panicsIff verify)
  | certificateRequest request =>
      simp only [verifyRecord, verifyMessage, Reading.onCaptured]
      refine PanicsIff.onPart ?_
      simp only [Verifying.storeRequest]
      exact (PanicsIff.mapError _).fromResult.bindM_last fun request t _ => .ok ()
  | finished finished =>
      simp only [verifyRecord, verifyMessage, get_bind_apply]
      refine (PanicsIff.mapError _).fromResult.bindM_last fun verified t _ => ?_
      split
      · exact .ok _
      · exact .err _

theorem readMessage_panicsIff (buf : ParseBuffer) :
    PanicsIff False (outcome (Reading.readMessage P buf r)) := by
  unfold Reading.readMessage
  split
  · exact .ok _
  · exact .err _

theorem deliverMessages_panicsIff (n : Nat) (buf : ParseBuffer) :
    PanicsIff (MeetsUpset P crates certSize clock pr n buf r)
      (outcome (deliverMessages P (verifyRecord P (pr.rustpki P crates certSize clock)) n buf r)) := by
  induction n generalizing buf r with
  | zero => exact .ok _
  | succ n ih =>
      simp only [deliverMessages, MeetsUpset]
      split
      next hrem =>
        refine ((readMessage_panicsIff buf).bindM fun read r₁ _ =>
          (verifyMessage_panicsIff read.1).seqM fun r₂ _ => ih read.2).congr ?_
        simp [hrem]
      next hrem => exact (PanicsIff.ok _).congr (by simp [hrem])

theorem verifyFlight_panicsIff (contents : List Bytes) :
    PanicsIff (FlightUpset P crates certSize clock pr contents r)
      (outcome (verifyFlight P (pr.rustpki P crates certSize clock) contents r)) := by
  induction contents generalizing r with
  | nil => exact .ok _
  | cons content contents ih =>
      exact (deliverMessages_panicsIff _ _).seqM fun r' _ => ih

/-- The verifier panics exactly when it is given a CertificateVerify without a certificate
accepted before it, a key that does not fit the scheme, or an issuer whose key is no Ed25519 key
for the signature it is to have made. -/
theorem flight_returns_iff (P : Primitives cs) (crates : Crates) (certSize : Nat)
    (clock : Nat → Nat → Option Nat) (pr : CryptoProvider CertVerifier)
    (r : Reading cs (Verifying CertVerifier)) (contents : List Bytes) :
    Returns (outcome (verifyFlight P (pr.rustpki P crates certSize clock) contents r)) ↔
      ¬FlightUpset P crates certSize clock pr contents r :=
  (verifyFlight_panicsIff contents).returns_iff

end

namespace Peer

/-- Every certificate is taken to be its own public key, and every element to have no value. -/
def lenientDer : Der where
  certificate := fun data => some ⟨⟨⟨.utcTime 0, .utcTime 0⟩, [], some data, none⟩, .ECDSA_SHA256, some []⟩
  sliceReader := fun _ => true
  header
    | [] => none
    | _ :: rest => some ⟨TAG_SEQUENCE, 0, rest⟩
  isUtf8 := fun _ => true
  header_shorter := by
    intro bytes h hh
    cases bytes with
    | nil => cases hh
    | cons b rest =>
        cases hh
        simp

/-- Keys of two bytes, and signatures that always hold. -/
def lenientSignatures : SignatureCrate := ⟨fun key => key.length = 2, fun _ => true, fun _ _ _ => true⟩

def crates : Crates where
  der := lenientDer
  p256 := lenientSignatures
  p384 := none
  ed25519 := some lenientSignatures
  rsa := some ⟨⟨fun _ => false, fun _ => true, fun _ _ _ => true⟩, lenientSignatures,
    lenientSignatures, lenientSignatures, lenientSignatures, lenientSignatures⟩

/-- A Certificate with one entry of two bytes. -/
def oneCertificate : Bytes := [11, 0, 0, 11, 0, 0, 0, 7, 0, 0, 2, 0x30, 0x30, 0, 0]

/-- A CertificateVerify of this scheme without a signature. -/
def verifyBy (scheme : SignatureScheme) : Bytes := [15, 0, 0, 4] ++ bigEndian 2 scheme.asU16 ++ [0, 0]

def verifierProvider : CryptoProvider CertVerifier where
  rsa := false
  verifier := pure ()
  verifyCertificate := fun _ _ => pure ()
  verifySignature := fun _ => pure ()
  clientCert := pure none
  signer := throw .unimplemented
  sign := fun _ => pure []

def beginning : Reading Peer.cs (Verifying CertVerifier) :=
  ⟨installed.serverState, ⟨⟨none, none⟩, .new (.x509 [0x30, 0x30]), .serverVerify, []⟩⟩

/-- How the client takes the contents of these records. -/
def taken (contents : List Bytes) : Except Stop Unit :=
  outcome (verifyFlight suite (verifierProvider.rustpki suite crates 64 fun _ _ => none) contents beginning)

end Peer

open Peer in
theorem proper_flight_taken :
    taken [encryptedExtensions, oneCertificate, verifyBy .ecdsaSecp256r1Sha256] = .ok () := by
  decide +kernel

open Peer in
/-- In a flight in proper order the verifier meets nothing to panic at. -/
theorem proper_flight_returns :
    ¬FlightUpset suite Peer.crates 64 (fun _ _ => none) verifierProvider
      [encryptedExtensions, oneCertificate, verifyBy .ecdsaSecp256r1Sha256] beginning := by
  refine (flight_returns_iff suite Peer.crates 64 (fun _ _ => none) verifierProvider beginning _).mp ?_
  rw [show outcome _ = _ from proper_flight_taken]
  nofun

open Peer in
/-- A CertificateVerify ahead of the certificate, a repeated one, and two whose scheme does not go
with the key. -/
theorem flight_panics :
    taken [encryptedExtensions, verifyBy .ecdsaSecp256r1Sha256] = .error .panic ∧
    taken [encryptedExtensions, oneCertificate, verifyBy .ecdsaSecp256r1Sha256,
      verifyBy .ecdsaSecp256r1Sha256] = .error .panic ∧
    taken [encryptedExtensions, oneCertificate, verifyBy .ed25519] = .error .panic ∧
    taken [encryptedExtensions, oneCertificate, verifyBy .rsaPssRsaeSha256] = .error .panic := by
  decide +kernel

end GatoPskTls.Client
