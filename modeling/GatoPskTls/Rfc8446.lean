import GatoPskTls.KeySchedule

/-!
# The TLS 1.3 key schedule

The schedule of RFC 8446 section 7.1 in its own terms, as functions of the secrets
and the handshake messages, and what each operation of the mutable key schedule
does in terms of it. The operations never fail: every label fits its buffer.
-/
namespace GatoPskTls

open Stateful BigEndian

variable {cs : TlsCipherSuite}

namespace Rfc8446

/-- HKDF-Expand-Label. -/
def expandLabel (P : Primitives cs) (secret : GenericArray cs.hashLen) (label : Label)
    (context : Bytes) (n : Nat) : GenericArray n :=
  P.expand secret (bigEndian 2 n ++ sized 1 (tls13Label ++ label.bytes) ++ sized 1 context) n

/-- Derive-Secret over a list of handshake messages, given as their concatenation. -/
def deriveSecret (P : Primitives cs) (secret : GenericArray cs.hashLen) (label : Label)
    (messages : Bytes) : GenericArray cs.hashLen :=
  expandLabel P secret label (P.hash messages).val cs.hashLen

/-- The salt the next stage of the schedule extracts with. -/
def nextSalt (P : Primitives cs) (secret : GenericArray cs.hashLen) : GenericArray cs.hashLen :=
  deriveSecret P secret .derived []

def earlySecret (P : Primitives cs) (psk : Bytes) : GenericArray cs.hashLen :=
  P.extract (KeySchedule.zero cs) psk

def handshakeSecret (P : Primitives cs) (psk dhe : Bytes) : GenericArray cs.hashLen :=
  P.extract (nextSalt P (earlySecret P psk)).val dhe

def masterSecret (P : Primitives cs) (psk dhe : Bytes) : GenericArray cs.hashLen :=
  P.extract (nextSalt P (handshakeSecret P psk dhe)).val (KeySchedule.zero cs)

def trafficKey (P : Primitives cs) (secret : GenericArray cs.hashLen) : GenericArray cs.keyLen :=
  expandLabel P secret .key [] cs.keyLen

def trafficIv (P : Primitives cs) (secret : GenericArray cs.hashLen) : GenericArray cs.ivLen :=
  expandLabel P secret .iv [] cs.ivLen

/-- The `verify_data` of a Finished message, or a binder. -/
def finishedMac (P : Primitives cs) (baseKey : GenericArray cs.hashLen) (messages : Bytes) :
    GenericArray cs.hashLen :=
  P.hmac (expandLabel P baseKey .finished [] cs.hashLen).val (P.hash messages).val

/-- A direction that has just switched to a traffic secret. -/
def freshState (P : Primitives cs) (secret : GenericArray cs.hashLen) : KeyScheduleState cs where
  trafficSecret := .initialized secret
  counter := 0
  key := trafficKey P secret
  iv := trafficIv P secret

/-- One stage of the schedule: extract, derive both directions over the transcript,
and keep the salt of the next stage. -/
def advance (P : Primitives cs) (ikm : Bytes) (clientLabel serverLabel : Label)
    (ks : KeySchedule cs) : KeySchedule cs :=
  let secret := P.extract ks.shared.secret.val ikm
  let messages := ks.serverState.transcriptHash
  { shared := ⟨nextSalt P secret, .initialized secret⟩
    clientState := { ks.clientState with
      state := freshState P (deriveSecret P secret clientLabel messages) }
    serverState := { ks.serverState with
      state := freshState P (deriveSecret P secret serverLabel messages) } }

/-- The early stage: a binder key, and the salt of the handshake stage. -/
def early (P : Primitives cs) (psk : Bytes) (ks : KeySchedule cs) : KeySchedule cs :=
  let secret := P.extract ks.shared.secret.val psk
  { ks with
    shared := ⟨nextSalt P secret, .initialized secret⟩
    clientState.binderKey := .initialized (deriveSecret P secret .extBinder []) }

end Rfc8446

open Rfc8446

theorem Label.bytes_length_le (label : Label) : label.bytes.length ≤ 12 := by
  cases label <;> decide

theorem tls13Label_length : tls13Label.length = 6 := rfl

theorem extendLabel_of_le {label more : Bytes} (h : label.length + more.length ≤ cs.labelBufferSize) :
    extendLabel cs label more = .ok (label ++ more) := if_pos h

theorem hashLen_le_48 (cs : TlsCipherSuite) : cs.hashLen ≤ 48 := by
  cases cs <;> decide

/-- The bytes a context contributes to the label. -/
def ContextType.bytes : ContextType cs → Bytes
  | none => []
  | hash context => context.val

theorem Secret.hkdfLabel_eq (n : Nat) (label : Label) (context : ContextType cs) :
    Secret.hkdfLabel n label.bytes context =
      .ok (bigEndian 2 n ++ sized 1 (tls13Label ++ label.bytes) ++ sized 1 context.bytes) := by
  have hlabel := label.bytes_length_le
  have hsize : cs.labelBufferSize = cs.hashLen + 22 := rfl
  have htls := tls13Label_length
  simp only [hkdfLabel]
  rw [extendLabel_of_le (by simp; omega), ok_bind, extendLabel_of_le (by simp; omega),
    ok_bind, extendLabel_of_le (by simp [htls]; omega), ok_bind,
    extendLabel_of_le (by simp [htls]; omega), ok_bind]
  cases context with
  | none =>
      rw [extendLabel_of_le (by simp [htls]; omega)]
      simp [ContextType.bytes, sized, bigEndian, htls]
  | hash context =>
      have hctx := context.property
      simp only []
      rw [extendLabel_of_le (by simp [htls]; omega), ok_bind,
        extendLabel_of_le (by simp [htls]; omega)]
      simp [ContextType.bytes, sized, htls]

theorem Secret.makeExpandedHkdfLabel_eq (P : Primitives cs) (prk : GenericArray cs.hashLen) {n : Nat}
    (label : Label) (context : ContextType cs) (hn : n ≤ 255 * cs.hashLen) :
    (Secret.initialized prk).makeExpandedHkdfLabel P n label context =
      .ok (expandLabel P prk label context.bytes n) := by
  rw [makeExpandedHkdfLabel, hkdfLabel_eq, ok_bind, asRef, ok_bind, if_neg (by omega)]
  rfl

theorem Secret.makeExpandedHkdfLabel_uninitialized (P : Primitives cs) (n : Nat)
    (label : Label) (context : ContextType cs) :
    (Secret.uninitialized : Secret cs).makeExpandedHkdfLabel P n label context =
      .error .internalError := by
  rw [makeExpandedHkdfLabel, hkdfLabel_eq, ok_bind, asRef, error_bind]

theorem keyLen_le (cs : TlsCipherSuite) : cs.keyLen ≤ 255 * cs.hashLen := by
  cases cs <;> decide

theorem ivLen_le (cs : TlsCipherSuite) : cs.ivLen ≤ 255 * cs.hashLen := by
  cases cs <;> decide

theorem hashLen_le (cs : TlsCipherSuite) : cs.hashLen ≤ 255 * cs.hashLen := by
  cases cs <;> decide

theorem SharedState.deriveSecret_eq (P : Primitives cs) {s : SharedState cs}
    {prk : GenericArray cs.hashLen} (h : s.hkdf = .initialized prk) (label : Label)
    (context : ContextType cs) :
    s.deriveSecret P label context = .ok (expandLabel P prk label context.bytes cs.hashLen) := by
  rw [deriveSecret, h, Secret.makeExpandedHkdfLabel_eq P prk label context (hashLen_le cs)]

theorem KeyScheduleState.calculateTrafficSecret_eq (P : Primitives cs) (label : Label)
    {shared : SharedState cs} {prk : GenericArray cs.hashLen} (h : shared.hkdf = .initialized prk)
    (messages : Bytes) (s : KeyScheduleState cs) :
    calculateTrafficSecret P label shared messages s =
      .ok () (freshState P (Rfc8446.deriveSecret P prk label messages)) := by
  simp only [calculateTrafficSecret, SharedState.deriveSecret_eq P h,
    Secret.makeExpandedHkdfLabel_eq P _ _ _ (keyLen_le cs),
    Secret.makeExpandedHkdfLabel_eq P _ _ _ (ivLen_le cs)]
  rfl

namespace KeySchedule

theorem derived_eq (P : Primitives cs) {ks : KeySchedule cs} {prk : GenericArray cs.hashLen}
    (h : ks.shared.hkdf = .initialized prk) :
    derived P ks = .ok () { ks with shared.secret := nextSalt P prk } := by
  simp only [derived, get_bind_apply, SharedState.deriveSecret_eq P h]
  rfl

theorem initializeEarlySecret_eq (P : Primitives cs) (psk : Option Bytes) (ks : KeySchedule cs) :
    initializeEarlySecret P psk ks = .ok () (early P (psk.getD (zero cs)) ks) := by
  simp only [initializeEarlySecret, initializeShared, modify_bind_apply, get_bind_apply]
  rw [SharedState.deriveSecret_eq P rfl]
  simp only [Except.mapError, bind_of_ok (fromResult_ok _ _), modify_bind_apply]
  rw [derived_eq P rfl]
  rfl

theorem calculateTrafficSecrets_eq (P : Primitives cs) (clientLabel serverLabel : Label)
    {ks : KeySchedule cs} {prk : GenericArray cs.hashLen} (h : ks.shared.hkdf = .initialized prk) :
    calculateTrafficSecrets P clientLabel serverLabel ks = .ok ()
      { ks with
        clientState.state := freshState P
          (Rfc8446.deriveSecret P prk clientLabel ks.serverState.transcriptHash)
        serverState.state := freshState P
          (Rfc8446.deriveSecret P prk serverLabel ks.serverState.transcriptHash) } := by
  simp only [calculateTrafficSecrets, get_bind_apply, onClient, onServer]
  rw [bind_of_ok (onPart_of_ok (KeyScheduleState.calculateTrafficSecret_eq P _ h _ _)),
    onPart_of_ok (KeyScheduleState.calculateTrafficSecret_eq P _ h _ _)]

theorem stage_eq (P : Primitives cs) (ikm : Bytes) (clientLabel serverLabel : Label)
    (ks : KeySchedule cs) :
    (do initializeShared P ikm
        calculateTrafficSecrets P clientLabel serverLabel
        derived P : M cs Unit) ks = .ok () (advance P ikm clientLabel serverLabel ks) := by
  simp only [initializeShared, modify_bind_apply]
  rw [bind_of_ok (calculateTrafficSecrets_eq P _ _ rfl), derived_eq P rfl]
  rfl

theorem initializeHandshakeSecret_eq (P : Primitives cs) (ikm : Bytes) (ks : KeySchedule cs) :
    initializeHandshakeSecret P ikm ks =
      .ok () (advance P ikm .clientHandshakeTraffic .serverHandshakeTraffic ks) :=
  stage_eq P ikm _ _ ks

theorem initializeMasterSecret_eq (P : Primitives cs) (ks : KeySchedule cs) :
    initializeMasterSecret P ks =
      .ok () (advance P (zero cs) .clientApplicationTraffic .serverApplicationTraffic ks) :=
  stage_eq P _ _ _ ks

theorem finishedMac_eq (P : Primitives cs) (prk : GenericArray cs.hashLen) (messages : Bytes) :
    finishedMac P (.initialized prk) (P.hash messages) = .ok (Rfc8446.finishedMac P prk messages) := by
  rw [finishedMac, Secret.makeExpandedHkdfLabel_eq P _ _ _ (hashLen_le cs)]
  rfl

theorem verifyFinished_eq_ok {P : Primitives cs} {secret : Secret cs}
    {verify hash : GenericArray cs.hashLen} {b : Bool} :
    verifyFinished P secret ⟨verify, some hash⟩ = .ok b ↔
      ∃ prk, secret = .initialized prk ∧
        b = decide ((P.hmac (expandLabel P prk .finished [] cs.hashLen).val hash.val).val =
          verify.val) := by
  rw [verifyFinished]
  cases secret with
  | uninitialized => simp [Secret.makeExpandedHkdfLabel_uninitialized]
  | initialized prk =>
      rw [Secret.makeExpandedHkdfLabel_eq P _ _ _ (hashLen_le cs)]
      simp [pure, Except.pure, ContextType.bytes, eq_comm]

end KeySchedule

end GatoPskTls
