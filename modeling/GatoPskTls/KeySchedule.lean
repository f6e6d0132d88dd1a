import GatoPskTls.Error

/-!
# Cipher suites and the key schedule

The hash, HKDF, HMAC and AEAD of a suite come from other crates and enter as
arbitrary functions with the output lengths those crates document. A running
digest is the bytes it has absorbed.
-/
namespace GatoPskTls

open Stateful BigEndian

inductive TlsCipherSuite
  | aes128GcmSha256
  | aes256GcmSha384
  deriving DecidableEq, Repr

namespace TlsCipherSuite

def codePoint : TlsCipherSuite → Nat
  | aes128GcmSha256 => 0x1301
  | aes256GcmSha384 => 0x1302

def hashLen : TlsCipherSuite → Nat
  | aes128GcmSha256 => 32
  | aes256GcmSha384 => 48

def keyLen : TlsCipherSuite → Nat
  | aes128GcmSha256 => 16
  | aes256GcmSha384 => 32

def ivLen (_ : TlsCipherSuite) : Nat := 12

def tagSize (_ : TlsCipherSuite) : Nat := 16

/-- Longest label 12, label overhead 10. -/
def labelBufferSize (cs : TlsCipherSuite) : Nat := cs.hashLen + (12 + 10)

end TlsCipherSuite

/-- The cryptographic functions of a suite. `expand` is defined for every length;
the HKDF limit of 255 blocks is checked by the caller. -/
structure Primitives (cs : TlsCipherSuite) where
  hash : Bytes → GenericArray cs.hashLen
  extract : (salt ikm : Bytes) → GenericArray cs.hashLen
  expand : (prk : GenericArray cs.hashLen) → (info : Bytes) → (n : Nat) → GenericArray n
  hmac : (key message : Bytes) → GenericArray cs.hashLen
  aeadSeal : (key : GenericArray cs.keyLen) → (nonce : GenericArray cs.ivLen) →
    (aad plaintext : Bytes) → Option Bytes
  aeadOpen : (key : GenericArray cs.keyLen) → (nonce : GenericArray cs.ivLen) →
    (aad ciphertext : Bytes) → Option Bytes
  aeadSeal_length : ∀ {key nonce aad plaintext ciphertext},
    aeadSeal key nonce aad plaintext = some ciphertext →
    ciphertext.length = plaintext.length + cs.tagSize
  aeadOpen_length : ∀ {key nonce aad ciphertext plaintext},
    aeadOpen key nonce aad ciphertext = some plaintext →
    ciphertext.length = plaintext.length + cs.tagSize

/-- ASCII text as bytes. -/
def ascii (text : List Char) : Bytes := text.map fun c => UInt8.ofNat c.toNat

/-- The labels the schedule passes to HKDF. -/
inductive Label
  | extBinder
  | derived
  | clientHandshakeTraffic
  | serverHandshakeTraffic
  | clientApplicationTraffic
  | serverApplicationTraffic
  | key
  | iv
  | finished
  deriving DecidableEq, Repr

def Label.bytes : Label → Bytes
  | extBinder => ascii ['e', 'x', 't', ' ', 'b', 'i', 'n', 'd', 'e', 'r']
  | derived => ascii ['d', 'e', 'r', 'i', 'v', 'e', 'd']
  | clientHandshakeTraffic => ascii ['c', ' ', 'h', 's', ' ', 't', 'r', 'a', 'f', 'f', 'i', 'c']
  | serverHandshakeTraffic => ascii ['s', ' ', 'h', 's', ' ', 't', 'r', 'a', 'f', 'f', 'i', 'c']
  | clientApplicationTraffic => ascii ['c', ' ', 'a', 'p', ' ', 't', 'r', 'a', 'f', 'f', 'i', 'c']
  | serverApplicationTraffic => ascii ['s', ' ', 'a', 'p', ' ', 't', 'r', 'a', 'f', 'f', 'i', 'c']
  | key => ascii ['k', 'e', 'y']
  | iv => ascii ['i', 'v']
  | finished => ascii ['f', 'i', 'n', 'i', 's', 'h', 'e', 'd']

def tls13Label : Bytes := ascii ['t', 'l', 's', '1', '3', ' ']

variable {cs : TlsCipherSuite}

/-- An HKDF instance is its pseudorandom key. -/
inductive Secret (cs : TlsCipherSuite)
  | uninitialized
  | initialized (prk : GenericArray cs.hashLen)
  deriving DecidableEq

inductive ContextType (cs : TlsCipherSuite)
  | none
  | hash (context : GenericArray cs.hashLen)

namespace ContextType

def transcriptHash (P : Primitives cs) (digest : Bytes) : ContextType cs := .hash (P.hash digest)

def emptyHash (P : Primitives cs) : ContextType cs := .hash (P.hash [])

end ContextType

/-- `extend_from_slice` on the label buffer. -/
def extendLabel (cs : TlsCipherSuite) (label more : Bytes) : Except TlsError Bytes :=
  if label.length + more.length ≤ cs.labelBufferSize then .ok (label ++ more)
  else .error .internalError

namespace Secret

def asRef : Secret cs → Except TlsError (GenericArray cs.hashLen)
  | initialized prk => .ok prk
  | uninitialized => .error .internalError

def hkdfLabel (n : Nat) (label : Bytes) (context : ContextType cs) : Except TlsError Bytes := do
  let buf ← extendLabel cs [] (bigEndian 2 n)
  let buf ← extendLabel cs buf (bigEndian 1 (6 + label.length))
  let buf ← extendLabel cs buf tls13Label
  let buf ← extendLabel cs buf label
  match context with
  | .none => extendLabel cs buf [0]
  | .hash context =>
      let buf ← extendLabel cs buf (bigEndian 1 context.val.length)
      extendLabel cs buf context.val

def makeExpandedHkdfLabel (P : Primitives cs) (secret : Secret cs) (n : Nat) (label : Label)
    (context : ContextType cs) : Except TlsError (GenericArray n) := do
  let info ← hkdfLabel n label.bytes context
  let prk ← secret.asRef
  -- HKDF refuses outputs longer than 255 blocks
  if n > 255 * cs.hashLen then .error .cryptoError
  else .ok (P.expand prk info n)

end Secret

structure Finished (cs : TlsCipherSuite) where
  verify : GenericArray cs.hashLen
  hash : Option (GenericArray cs.hashLen)
  deriving DecidableEq

structure PskBinder (cs : TlsCipherSuite) where
  verify : GenericArray cs.hashLen
  deriving DecidableEq

structure SharedState (cs : TlsCipherSuite) where
  secret : GenericArray cs.hashLen
  hkdf : Secret cs
  deriving DecidableEq

structure KeyScheduleState (cs : TlsCipherSuite) where
  trafficSecret : Secret cs
  counter : UInt64
  key : GenericArray cs.keyLen
  iv : GenericArray cs.ivLen
  deriving DecidableEq

structure WriteKeySchedule (cs : TlsCipherSuite) where
  state : KeyScheduleState cs
  binderKey : Secret cs
  deriving DecidableEq

structure ReadKeySchedule (cs : TlsCipherSuite) where
  state : KeyScheduleState cs
  transcriptHash : Bytes
  deriving DecidableEq

structure KeySchedule (cs : TlsCipherSuite) where
  shared : SharedState cs
  clientState : WriteKeySchedule cs
  serverState : ReadKeySchedule cs
  deriving DecidableEq

namespace SharedState

def new : SharedState cs := ⟨.zeros _, .uninitialized⟩

def initializeWith (P : Primitives cs) (ikm : Bytes) (s : SharedState cs) : SharedState cs :=
  let secret := P.extract s.secret.val ikm
  { secret := secret, hkdf := .initialized secret }

def deriveSecret (P : Primitives cs) (s : SharedState cs) (label : Label)
    (context : ContextType cs) : Except TlsError (GenericArray cs.hashLen) :=
  s.hkdf.makeExpandedHkdfLabel P cs.hashLen label context

end SharedState

namespace KeyScheduleState

def new : KeyScheduleState cs := ⟨.uninitialized, 0, .zeros _, .zeros _⟩

/-- `padded[(N - index) - 1] = byte` for the bytes of the input from the back. -/
def pad (n : Nat) (input : Bytes) : Bytes :=
  input.reverse.zipIdx.foldl (fun padded (byte, index) => padded.set (n - index - 1) byte)
    (List.replicate n 0)

theorem pad_length (n : Nat) (input : Bytes) : (pad n input).length = n := by
  suffices ∀ (xs : List (UInt8 × Nat)) (acc : Bytes), acc.length = n →
      (xs.foldl (fun padded p => padded.set (n - p.2 - 1) p.1) acc).length = n from
    this _ _ List.length_replicate
  intro xs
  induction xs with
  | nil => exact fun acc h => h
  | cons x xs ih => exact fun acc h => ih _ (by simpa using h)

def nonce (counter : UInt64) (iv : GenericArray cs.ivLen) : GenericArray cs.ivLen :=
  ⟨xorBytes iv.val (pad cs.ivLen (bigEndian 8 counter.toNat)), by
    rw [xorBytes_length, pad_length, iv.property, Nat.min_self]⟩

def getKey (s : KeyScheduleState cs) : Except TlsError (GenericArray cs.keyLen) := .ok s.key

def getNonce (s : KeyScheduleState cs) : Except TlsError (GenericArray cs.ivLen) :=
  .ok (nonce s.counter s.iv)

/-- The traffic secret is replaced before key and IV are expanded from it. -/
def calculateTrafficSecret (P : Primitives cs) (label : Label) (shared : SharedState cs)
    (transcriptHash : Bytes) : EStateM Stop (KeyScheduleState cs) Unit := do
  let secret ← fromResult ((shared.deriveSecret P label (.transcriptHash P transcriptHash)).mapError .err)
  let trafficSecret : Secret cs := .initialized secret
  modify fun s => { s with trafficSecret }
  let key ← fromResult ((trafficSecret.makeExpandedHkdfLabel P cs.keyLen .key .none).mapError .err)
  modify fun s => { s with key }
  let iv ← fromResult ((trafficSecret.makeExpandedHkdfLabel P cs.ivLen .iv .none).mapError .err)
  modify fun s => { s with iv, counter := 0 }

/-- `checked_add(1)` on a `u64`, unwrapped. -/
def incrementCounter : EStateM Stop (KeyScheduleState cs) Unit := do
  let s ← get
  if s.counter.toNat + 1 < 2 ^ 64 then set { s with counter := s.counter + 1 }
  else throw .panic

end KeyScheduleState

namespace KeySchedule

def new : KeySchedule cs where
  shared := .new
  clientState := ⟨.new, .uninitialized⟩
  serverState := ⟨.new, []⟩

abbrev M (cs : TlsCipherSuite) := EStateM Stop (KeySchedule cs)

/-- `transcript_hash().update(data)`. -/
def updateTranscript (data : Bytes) : M cs Unit :=
  modify fun ks =>
    { ks with serverState.transcriptHash := ks.serverState.transcriptHash ++ data }

def replaceTranscriptHash (hash : Bytes) : M cs Unit :=
  modify fun ks => { ks with serverState.transcriptHash := hash }

def onClient {α : Type} (x : EStateM Stop (KeyScheduleState cs) α) : M cs α :=
  onPart (·.clientState.state) (fun ks s => { ks with clientState.state := s }) x

def onServer {α : Type} (x : EStateM Stop (KeyScheduleState cs) α) : M cs α :=
  onPart (·.serverState.state) (fun ks s => { ks with serverState.state := s }) x

/-- The MAC every Finished message and binder carries: a key expanded from a
secret under the label "finished", over a transcript hash. -/
def finishedMac (P : Primitives cs) (secret : Secret cs) (hash : GenericArray cs.hashLen) :
    Except TlsError (GenericArray cs.hashLen) := do
  let key ← secret.makeExpandedHkdfLabel P cs.hashLen .finished .none
  return P.hmac key.val hash.val

/-- The same MAC, compared with a received one. -/
def verifyMac (P : Primitives cs) (secret : Secret cs) (hash : GenericArray cs.hashLen)
    (received : Bytes) : Except TlsError Bool := do
  let expected ← finishedMac P secret hash
  return expected.val = received

def createClientFinished (P : Primitives cs) (ks : KeySchedule cs) :
    Except TlsError (Finished cs) := do
  let verify ← finishedMac P ks.clientState.state.trafficSecret
    (P.hash ks.serverState.transcriptHash)
  return ⟨verify, none⟩

def createServerFinished (P : Primitives cs) (ks : KeySchedule cs) :
    Except TlsError (Finished cs) := do
  let verify ← finishedMac P ks.serverState.state.trafficSecret
    (P.hash ks.serverState.transcriptHash)
  return ⟨verify, none⟩

def verifyPskBinder (P : Primitives cs) (ks : KeySchedule cs) (transcriptHash received : Bytes) :
    Except TlsError Bool :=
  verifyMac P ks.clientState.binderKey (P.hash transcriptHash) received

/-- The key is expanded before the snapshot is looked at. -/
def verifyFinished (P : Primitives cs) (secret : Secret cs) (finished : Finished cs) :
    Except TlsError Bool := do
  let key ← secret.makeExpandedHkdfLabel P cs.hashLen .finished .none
  match finished.hash with
  | some hash => return (P.hmac key.val hash.val).val = finished.verify.val
  | none => .error .internalError

def verifyClientFinished (P : Primitives cs) (ks : KeySchedule cs) (finished : Finished cs) :
    Except TlsError Bool :=
  verifyFinished P ks.clientState.state.trafficSecret finished

def verifyServerFinished (P : Primitives cs) (ks : ReadKeySchedule cs) (finished : Finished cs) :
    Except TlsError Bool :=
  verifyFinished P ks.state.trafficSecret finished

def createPskBinder (P : Primitives cs) (ks : WriteKeySchedule cs) (transcriptHash : Bytes) :
    Except TlsError (PskBinder cs) := do
  return ⟨← finishedMac P ks.binderKey (P.hash transcriptHash)⟩

def initializeShared (P : Primitives cs) (ikm : Bytes) : M cs Unit :=
  modify fun ks => { ks with shared := ks.shared.initializeWith P ikm }

/-- `shared.derived()`: the next extraction's salt. -/
def derived (P : Primitives cs) : M cs Unit := do
  let ks ← get
  let secret ← fromResult ((ks.shared.deriveSecret P .derived (.emptyHash P)).mapError .err)
  set { ks with shared.secret := secret }

def zero (cs : TlsCipherSuite) : Bytes := (GenericArray.zeros cs.hashLen).val

def initializeEarlySecret (P : Primitives cs) (psk : Option Bytes) : M cs Unit := do
  initializeShared P (psk.getD (zero cs))
  let ks ← get
  let binderKey ← fromResult ((ks.shared.deriveSecret P .extBinder (.emptyHash P)).mapError .err)
  modify fun ks => { ks with clientState.binderKey := .initialized binderKey }
  derived P

def calculateTrafficSecrets (P : Primitives cs) (clientLabel serverLabel : Label) : M cs Unit := do
  let ks ← get
  onClient (KeyScheduleState.calculateTrafficSecret P clientLabel ks.shared
    ks.serverState.transcriptHash)
  onServer (KeyScheduleState.calculateTrafficSecret P serverLabel ks.shared
    ks.serverState.transcriptHash)

def initializeHandshakeSecret (P : Primitives cs) (ikm : Bytes) : M cs Unit := do
  initializeShared P ikm
  calculateTrafficSecrets P .clientHandshakeTraffic .serverHandshakeTraffic
  derived P

def initializeHandshakeSecretPskKe (P : Primitives cs) : M cs Unit :=
  initializeHandshakeSecret P (zero cs)

def initializeMasterSecret (P : Primitives cs) : M cs Unit := do
  initializeShared P (zero cs)
  calculateTrafficSecrets P .clientApplicationTraffic .serverApplicationTraffic
  derived P

end KeySchedule

/-- The counter has a next value. -/
def CanCount (s : KeyScheduleState cs) : Prop := s.counter.toNat + 1 < 2 ^ 64

instance (s : KeyScheduleState cs) : Decidable (CanCount s) :=
  inferInstanceAs (Decidable (s.counter.toNat + 1 < 2 ^ 64))

theorem canCount_next {s : KeyScheduleState cs} (h : CanCount s) :
    (s.counter + 1).toNat = s.counter.toNat + 1 := by
  rw [UInt64.toNat_add]
  exact Nat.mod_eq_of_lt h

theorem incrementCounter_eq (s : KeyScheduleState cs) :
    KeyScheduleState.incrementCounter s = if CanCount s then
      .ok () { s with counter := s.counter + 1 } else .error .panic s := by
  simp only [KeyScheduleState.incrementCounter, get_bind_apply]
  by_cases h : CanCount s
  · rw [if_pos h, if_pos (show s.counter.toNat + 1 < 2 ^ 64 from h)]
    rfl
  · rw [if_neg h, if_neg (show ¬s.counter.toNat + 1 < 2 ^ 64 from h)]
    rfl

def checksum (bytes : Bytes) : UInt8 := bytes.foldl (fun sum byte => (sum ^^^ byte) * 5 + 3) 7

def checksums (n : Nat) (bytes : Bytes) : GenericArray n :=
  ⟨(List.range n).map fun i => checksum bytes + UInt8.ofNat i, by
    rw [List.length_map, List.length_range]⟩

/-- Every function of the suite is a checksum of its inputs; the AEAD sends the plaintext
with a checksum of key, nonce, associated data and plaintext as its tag. -/
def Primitives.checksumming (cs : TlsCipherSuite) : Primitives cs where
  hash := checksums cs.hashLen
  extract := fun salt ikm => checksums cs.hashLen (salt ++ ikm)
  expand := fun prk info n => checksums n (prk.val ++ info)
  hmac := fun key message => checksums cs.hashLen (key ++ message)
  aeadSeal := fun key nonce aad plaintext =>
    some (plaintext ++ (checksums cs.tagSize (key.val ++ nonce.val ++ aad ++ plaintext)).val)
  aeadOpen := fun key nonce aad ciphertext =>
    if ciphertext.length < cs.tagSize then none
    else
      let plaintext := ciphertext.take (ciphertext.length - cs.tagSize)
      if ciphertext.drop (ciphertext.length - cs.tagSize) =
          (checksums cs.tagSize (key.val ++ nonce.val ++ aad ++ plaintext)).val then some plaintext
      else none
  aeadSeal_length := by
    intro key nonce aad plaintext ciphertext h
    cases h
    rw [List.length_append, (checksums cs.tagSize _).property]
  aeadOpen_length := by
    intro key nonce aad ciphertext plaintext h
    split at h
    · cases h
    · dsimp only at h
      split at h
      · cases h
        rw [List.length_take]
        omega
      · cases h

end GatoPskTls
