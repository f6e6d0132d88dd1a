import GatoPskTls.Client.Connection

/-!
# Client: a server to talk to

Records a server could send to a client that has installed its handshake keys without a
pre-shared key, small enough to evaluate.
-/
namespace GatoPskTls.Client.Peer

open Stateful BigEndian

abbrev cs : TlsCipherSuite := .aes128GcmSha256

def suite : Primitives cs := .checksumming cs

/-- The key schedule of a client without a pre-shared key behind the ServerHello. -/
def installed : KeySchedule cs :=
  after ((do
    KeySchedule.initializeEarlySecret suite none
    KeySchedule.updateTranscript [1, 0, 0, 0, 2, 0, 0, 0]
    KeySchedule.initializeHandshakeSecret suite [7] : KeySchedule.M cs Unit) .new)

/-- The record that protects some content under the server's key and counter. -/
def sealed (s : KeyScheduleState cs) (contentType : ContentType) (content : Bytes) : Bytes :=
  let aad := additionalData (content.length + 1 + cs.tagSize)
  aad ++ ((suite.aeadSeal s.key (KeyScheduleState.nonce s.counter s.iv) aad
    (content ++ [contentType.toU8])).getD [])

/-- A record without protection. -/
def plain (contentType : ContentType) (content : Bytes) : Bytes :=
  [contentType.toU8, 0x03, 0x03] ++ sized 2 content

def encryptedExtensions : Bytes := [8, 0, 0, 2, 0, 0]

def certificate : Bytes := [11, 0, 0, 4, 0, 0, 0, 0]

def certificateVerify : Bytes := [15, 0, 0, 4, 0x04, 0x03, 0, 0]

/-- The Finished that fits the transcript with the messages given. -/
def finished (ks : KeySchedule cs) (messages : Bytes) : Bytes :=
  match KeySchedule.finishedMac suite ks.serverState.state.trafficSecret
      (suite.hash (ks.serverState.transcriptHash ++ messages)) with
  | .ok mac => [20, 0, 0, 32] ++ mac.val
  | .error _ => []

/-- The server's messages and its Finished in one record. -/
def flight (messages : Bytes) : Bytes :=
  sealed installed.serverState.state .handshake (messages ++ finished installed messages)

/-- A client that waits for these bytes. -/
def channel (arriving : Bytes) : Channel cs where
  intake := ⟨.new (List.replicate 120 0), [.chunk arriving]⟩
  outgoing := ⟨[], []⟩
  buffer := ⟨List.replicate 160 0, 0, none⟩
  schedule := installed

def opening (arriving : Bytes) : Opening cs Unit := ⟨channel arriving, ⟨none, none⟩, (), []⟩

/-- A provider that takes every certificate and signature, or none. -/
def provider (accepts : Bool) : CryptoProvider Unit where
  rsa := false
  verifier := pure ()
  verifyCertificate := fun _ _ => if accepts then pure () else throw (.err .invalidCertificate)
  verifySignature := fun _ => if accepts then pure () else throw (.err .invalidSignature)
  clientCert := pure none
  signer := throw .unimplemented
  sign := fun _ => pure []

end GatoPskTls.Client.Peer
