import GatoPskTls.Server.Flight

/-!
# Server: the session

The public operations of a server session as computations on its state, a key
schedule and the record of a HelloRetryRequest. Whatever an operation wrote to
the state before it failed stays written.
-/
namespace GatoPskTls.Server

open GatoPskTls Stateful BigEndian ParseBuffer Splice

variable {cs : TlsCipherSuite}

@[ext] structure Session (cs : TlsCipherSuite) where
  schedule : KeySchedule cs
  hrrState : HrrState
  deriving DecidableEq

inductive HandshakeOutput
  | firstFlight (bytes : Bytes)
  | helloRetryRequest (bytes : Bytes)
  deriving DecidableEq, Repr

def HandshakeOutput.bytes : HandshakeOutput → Bytes
  | firstFlight bytes => bytes
  | helloRetryRequest bytes => bytes

inductive AppDataOrAlert
  | appData (bytes : Bytes)
  | alert (level : AlertLevel) (description : AlertDescription)
  deriving DecidableEq, Repr

/-- Snapshot of the fields of ClientHello1 that ClientHello2 must repeat. -/
def HrrState.snapshot (hrr : HrrState) (hello : ClientHelloRef)
    (h : hello.legacySessionId.length ≤ 32) : HrrState where
  sent := true
  ch1Random := hello.random
  ch1SessionIdLen := UInt8.ofNat hello.legacySessionId.length
  ch1SessionId := ⟨splice hrr.ch1SessionId.val 0 hello.legacySessionId, by
    rw [splice_length (by rw [hrr.ch1SessionId.property]; omega)]
    exact hrr.ch1SessionId.property⟩

namespace Session

def new : Session cs := ⟨.new, .default⟩

abbrev M (cs : TlsCipherSuite) := EStateM Stop (Session cs)

def onSchedule {α : Type} (x : KeySchedule.M cs α) : M cs α :=
  onPart (·.schedule) (fun s ks => { s with schedule := ks }) x

/-- Run record writers on the schedule and a fresh writer over `out`; the result is
the part of `out` that was written. -/
def writing (out : Bytes) (x : Desk.M cs Unit) : M cs Bytes := fun s =>
  match x ⟨s.schedule, .new out⟩ with
  | .ok () d => .ok (d.writer.buf.take d.writer.pos) { s with schedule := d.schedule }
  | .error e d => .error e { s with schedule := d.schedule }

/-- `map_err(|_| TlsError::CryptoError)`. -/
def orCryptoError {α : Type} (x : KeySchedule.M cs α) : KeySchedule.M cs α :=
  mapError (Stop.mapErr fun _ => .cryptoError) x

/-- What the binder is computed over, up to the binders of this ClientHello. -/
def binderBase (s : Session cs) : Bytes :=
  if s.hrrState.sent then s.schedule.serverState.transcriptHash else []

/-- The early secret is extracted on the first ClientHello only. -/
def prepareBinderKey (P : Primitives cs) (config : TlsServerConfig) : M cs Unit := do
  if (← get).hrrState.sent then pure ()
  else onSchedule (orCryptoError (KeySchedule.initializeEarlySecret P (some config.pskSecret)))

def checkBinder (P : Primitives cs) (msg : Bytes) (offer : Offer) : M cs Unit := do
  let s ← get
  if offer.hello.bindersStartOffset > msg.length then throw .panic
  else do
    let transcript := s.binderBase ++ msg.take offer.hello.bindersStartOffset
    let binderOk ← fromResult ((s.schedule.verifyPskBinder P transcript offer.receivedBinder).mapError
      fun _ => .err .cryptoError)
    if binderOk then pure () else throw (.err (fatal .decryptError))

def snapshotCh1 (hello : ClientHelloRef) : M cs Unit := do
  let s ← get
  if h : hello.legacySessionId.length ≤ 32 then
    set { s with hrrState := s.hrrState.snapshot hello h }
  else throw .panic

def retry (P : Primitives cs) (msg : Bytes) (offer : Offer) (group : NamedGroup) (out : Bytes) :
    M cs HandshakeOutput := do
  let bytes ← writing out
    (writeHelloRetryRequestRecord P offer.hello.legacySessionId group msg)
  snapshotCh1 offer.hello
  return .helloRetryRequest bytes

/-- The shared secret goes into the handshake secret; an all-zero one is refused. -/
def installHandshakeKeys (P : Primitives cs) (X : X25519) (config : TlsServerConfig) :
    KexMode → KeySchedule.M cs Unit
  | .pskKe => orCryptoError (KeySchedule.initializeHandshakeSecretPskKe P)
  | .pskDheKe clientPub =>
      match config.dheKeypair with
      | none => throw (.err .internalError)
      | some dhe =>
          if h : clientPub.length = X25519_LEN then
            let shared := X.mult dhe.secret ⟨clientPub, h⟩
            if shared.val.all (· == 0) then throw (.err (fatal .illegalParameter))
            else orCryptoError (KeySchedule.initializeHandshakeSecret P shared.val)
          else throw (.err (fatal .illegalParameter))

def writeFlight (P : Primitives cs) (X : X25519) (config : TlsServerConfig) (offer : Offer)
    (mode : KexMode) : Desk.M cs Unit := do
  writeServerHelloRecord config offer.hello.legacySessionId offer.selectedIdx mode
  Desk.onSchedule (installHandshakeKeys P X config mode)
  writeEncryptedHandshakeRecord P encodeEncryptedExtensions
  writeEncryptedHandshakeRecord P (encodeServerFinished P)

def firstFlight (P : Primitives cs) (X : X25519) (msg : Bytes) (config : TlsServerConfig)
    (offer : Offer) (mode : KexMode) (out : Bytes) : M cs HandshakeOutput := do
  onSchedule (KeySchedule.updateTranscript msg)
  let bytes ← writing out (writeFlight P X config offer mode)
  return .firstFlight bytes

def processClientHello (P : Primitives cs) (X : X25519) (msg : Bytes) (config : TlsServerConfig)
    (out : Bytes) : M cs HandshakeOutput := do
  let offer ← fromResult (examine msg config (← get).hrrState)
  prepareBinderKey P config
  checkBinder P msg offer
  match offer.decision with
  | .retry group => retry P msg offer group out
  | .use mode => firstFlight P X msg config offer mode out

/-- The framing checks all protected records go through. -/
def checkFraming (record : Bytes) : Except TlsError Nat :=
  if record.length < RECORD_HEADER_LEN then .error .invalidRecord
  else if record.head? ≠ some ContentType.applicationData.toU8 then .error .invalidRecord
  else
    let bodyLen := fromBigEndian ((record.drop 3).take 2)
    if RECORD_HEADER_LEN + bodyLen ≠ record.length then .error .invalidRecord
    else .ok bodyLen

/-- The index of the last non-zero byte. -/
def padEnd (plaintext : Bytes) : Option Nat :=
  (plaintext.reverse.findIdx? (· != 0)).map fun i => plaintext.length - 1 - i

/-- Decrypt a record with `client_state`; a success advances the read counter. The
buffer holds the record's body and is the rest of the result. -/
def openRecord (P : Primitives cs) (record buffer : Bytes) : KeySchedule.M cs Bytes := do
  let ks ← get
  let key ← fromResult (ks.clientState.state.getKey.mapError .err)
  let nonce ← fromResult (ks.clientState.state.getNonce.mapError .err)
  match CryptoBuffer.decryptInPlace P key nonce (record.take RECORD_HEADER_LEN)
      (.wrapWithPos buffer buffer.length) with
  | .error _ _ => throw (.err .cryptoError)
  | .ok () b => do
      incrementClientCounter
      return b.buf.take b.len

/-- Strip the padding: the content type marker and what stands before it. -/
def stripPadding (plaintext : Bytes) : Except TlsError (ContentType × Bytes) :=
  match padEnd plaintext with
  | none => .error .invalidRecord
  | some i =>
      match plaintext[i]?.bind ContentType.of with
      | none => .error .invalidRecord
      | some contentType => .ok (contentType, plaintext.take i)

/-- A Finished message that fills its record. -/
def parseClientFinished (cs : TlsCipherSuite) : Parser TlsError (GenericArray cs.hashLen) := do
  let invalid : ParseError → TlsError := fun _ => .invalidHandshake
  let msgType ← mapError invalid readU8
  if msgType ≠ HandshakeType.finished.toU8 then throw .invalidHandshake
  else do
    let bodyLen ← mapError invalid readU24
    if bodyLen ≠ cs.hashLen then throw .invalidHandshake
    else do
      let verify ← mapError invalid (fill cs.hashLen)
      if !(← get).isEmpty then throw .invalidHandshake else pure verify

def runParser {α : Type} (p : Parser TlsError α) (data : Bytes) : Except TlsError α :=
  outcome (p (ParseBuffer.new data))

/-- The inner message of a record that must carry a client Finished. -/
def finishedPayload (cs : TlsCipherSuite) (plaintext : Bytes) :
    Except TlsError (Bytes × GenericArray cs.hashLen) := do
  let (contentType, inner) ← stripPadding plaintext
  if contentType ≠ .handshake then .error .invalidRecord
  else do
    let verify ← runParser (parseClientFinished cs) inner
    return (inner, verify)

def processClientFinishedIn (P : Primitives cs) (record : Bytes) : KeySchedule.M cs Unit := do
  let bodyLen ← fromResult ((checkFraming record).mapError .err)
  let snapshot := P.hash (← get).serverState.transcriptHash
  if bodyLen > 256 then throw (.err .insufficientSpace)
  else do
    let plaintext ← openRecord P record (record.drop RECORD_HEADER_LEN)
    let (inner, verify) ← fromResult ((finishedPayload cs plaintext).mapError .err)
    let ks ← get
    let ok ← fromResult ((ks.verifyClientFinished P ⟨verify, some snapshot⟩).mapError
      fun _ => .err .cryptoError)
    if ok then do
      orCryptoError (KeySchedule.initializeMasterSecret P)
      KeySchedule.updateTranscript inner
    else throw (.err (fatal .decryptError))

def processClientFinished (P : Primitives cs) (record : Bytes) : M cs Unit :=
  onSchedule (processClientFinishedIn P record)

/-- Seal `payload` followed by its content type marker into the front of `out`. -/
def sealPayload (P : Primitives cs) (payload : Bytes) (marker : ContentType) (out : Bytes) :
    KeySchedule.M cs Bytes := do
  let plaintextWithMarker := payload.length + 1
  let ciphertextLen := plaintextWithMarker + cs.tagSize
  let header := protectedHeader ciphertextLen
  let out := splice out 0 (header ++ payload ++ [marker.toU8])
  let region := (out.drop RECORD_HEADER_LEN).take ciphertextLen
  let ciphertext ← fromResult
    (sealRegion P (← get).serverState.state header region plaintextWithMarker)
  incrementServerCounter
  return (splice out RECORD_HEADER_LEN ciphertext).take (RECORD_HEADER_LEN + ciphertextLen)

def encryptAppData (P : Primitives cs) (plaintext out : Bytes) : M cs Bytes :=
  let ciphertextLen := plaintext.length + 1 + cs.tagSize
  if out.length < RECORD_HEADER_LEN + ciphertextLen then throw (.err .insufficientSpace)
  else if ciphertextLen > 65535 then throw (.err .encodeError)
  else onSchedule (sealPayload P plaintext .applicationData out)

def encryptAlert (P : Primitives cs) (level : AlertLevel) (description : AlertDescription)
    (out : Bytes) : M cs Bytes :=
  if out.length < RECORD_HEADER_LEN + (2 + 1 + cs.tagSize) then throw (.err .insufficientSpace)
  else onSchedule (sealPayload P [level.toU8, description.toU8] .alert out)

/-- The common part of the two decrypt operations. -/
def openPayload (P : Primitives cs) (record plaintextBuf : Bytes) :
    KeySchedule.M cs (ContentType × Bytes) := do
  let bodyLen ← fromResult ((checkFraming record).mapError .err)
  if plaintextBuf.length < bodyLen then throw (.err .insufficientSpace)
  else do
    let plaintext ← openRecord P record (record.drop RECORD_HEADER_LEN)
    fromResult ((stripPadding plaintext).mapError .err)

def decryptAppData (P : Primitives cs) (record plaintextBuf : Bytes) : M cs Bytes := do
  let (contentType, payload) ← onSchedule (openPayload P record plaintextBuf)
  if contentType ≠ .applicationData then throw (.err .invalidRecord) else pure payload

def interpretPayload : ContentType → Bytes → Except TlsError AppDataOrAlert
  | .applicationData, payload => .ok (.appData payload)
  | .alert, [level, description] =>
      match AlertLevel.of level, AlertDescription.of description with
      | some level, some description => .ok (.alert level description)
      | _, _ => .error .decodeError
  | _, _ => .error .invalidRecord

def decryptAppDataOrAlert (P : Primitives cs) (record plaintextBuf : Bytes) :
    M cs AppDataOrAlert := do
  let (contentType, payload) ← onSchedule (openPayload P record plaintextBuf)
  fromResult ((interpretPayload contentType payload).mapError .err)

end Session

end GatoPskTls.Server
