import GatoPskTls.ClientHelloWire
import GatoPskTls.Server.FlightSpec
import GatoPskTls.Server.Session

/-!
# Server: a client to talk to

The client's half of the handshake on a key schedule of its own, as the crate's round-trip
tests drive it: absorbing a retry, reading a first flight, and sending a Finished. A failed
assertion is a panic.
-/
namespace GatoPskTls.Server.Peer

open GatoPskTls Stateful BigEndian

variable {cs : TlsCipherSuite}

/-- The next record of a byte stream, and what follows it. -/
def oneRecord (bytes : Bytes) : Bytes × Bytes :=
  let total := RECORD_HEADER_LEN + fromBigEndian ((bytes.drop 3).take 2)
  (bytes.take total, bytes.drop total)

def splitFirstFlight (bytes : Bytes) : Except Stop (Bytes × Bytes × Bytes) :=
  let (sh, rest) := oneRecord bytes
  let (ee, rest) := oneRecord rest
  let (fin, rest) := oneRecord rest
  if rest.isEmpty then .ok (sh, ee, fin) else .error .panic

/-- The client reads with `server_state`. -/
def decryptHandshakeRecord (P : Primitives cs) (record : Bytes) : KeySchedule.M cs Bytes := do
  if record.head? ≠ some ContentType.applicationData.toU8 ∨
      record.length ≠ RECORD_HEADER_LEN + fromBigEndian ((record.drop 3).take 2) ∨
      record.length > RECORD_HEADER_LEN + 256 then throw .panic
  else do
    let ks ← get
    let key ← fromResult (ks.serverState.state.getKey.mapError .err)
    let nonce ← fromResult (ks.serverState.state.getNonce.mapError .err)
    let body := record.drop RECORD_HEADER_LEN
    match CryptoBuffer.decryptInPlace P key nonce (record.take RECORD_HEADER_LEN)
        (.wrapWithPos body body.length) with
    | .error _ _ => throw .panic
    | .ok () b => do
        incrementServerCounter
        match Session.padEnd (b.buf.take b.len) with
        | none => throw .panic
        | some i => pure ((b.buf.take b.len).take i)

/-- The server's share, when its ServerHello carries one. -/
def serverShare (sh : Bytes) : Except TlsError (Option Bytes) :=
  match ServerHello.parse (ParseBuffer.new (sh.drop (RECORD_HEADER_LEN + HANDSHAKE_HEADER_LEN))) with
  | .error e _ => .error e
  | .ok hello _ => .ok (hello.keyShare.map (·.opaqueBytes))

def installHandshakeKeys (P : Primitives cs) (X : X25519) (secret : GenericArray X25519_LEN) :
    Option Bytes → KeySchedule.M cs Unit
  | none => KeySchedule.initializeHandshakeSecretPskKe P
  | some share =>
      if h : share.length = X25519_LEN then
        KeySchedule.initializeHandshakeSecret P (X.mult secret ⟨share, h⟩).val
      else throw .panic

/-- The two encrypted messages, and whether the server's Finished verifies. -/
def readEncrypted (P : Primitives cs) (ee fin : Bytes) : KeySchedule.M cs Bool := do
  let eeInner ← decryptHandshakeRecord P ee
  KeySchedule.updateTranscript eeInner
  let finInner ← decryptHandshakeRecord P fin
  let snapshot := P.hash (← get).serverState.transcriptHash
  KeySchedule.updateTranscript finInner
  if h : ((finInner.drop HANDSHAKE_HEADER_LEN).take cs.hashLen).length = cs.hashLen then do
    let ks ← get
    fromResult ((KeySchedule.verifyServerFinished P ks.serverState ⟨⟨_, h⟩, some snapshot⟩).mapError .err)
  else throw .panic

/-- The whole flight: `ch` is the ClientHello it answers, `secret` the client's X25519 secret. -/
def receiveFlight (P : Primitives cs) (X : X25519) (secret : GenericArray X25519_LEN)
    (ch flight : Bytes) : KeySchedule.M cs Bool := do
  let (sh, ee, fin) ← fromResult (splitFirstFlight flight)
  KeySchedule.updateTranscript ch
  KeySchedule.updateTranscript (sh.drop RECORD_HEADER_LEN)
  let share ← fromResult ((serverShare sh).mapError .err)
  installHandshakeKeys P X secret share
  readEncrypted P ee fin

/-- The transcript restarts with the synthetic message and the HelloRetryRequest. -/
def absorbRetry (P : Primitives cs) (ch1 hrrRecord : Bytes) : KeySchedule.M cs Unit :=
  KeySchedule.replaceTranscriptHash (messageHash P ch1 ++ hrrRecord.drop RECORD_HEADER_LEN)

/-- The client writes with `client_state`. -/
def finishedRecord (P : Primitives cs) : KeySchedule.M cs Bytes := do
  let ks ← get
  let finished ← fromResult ((ks.createClientFinished P).mapError .err)
  let inner := [HandshakeType.finished.toU8, 0, 0, UInt8.ofNat cs.hashLen] ++ finished.verify.val ++
    [ContentType.handshake.toU8]
  let header := protectedHeader (inner.length + cs.tagSize)
  let backing := inner ++ List.replicate cs.tagSize 0
  let ciphertext ← fromResult (sealRegion P ks.clientState.state header backing inner.length)
  incrementClientCounter
  return header ++ ciphertext

/-- The client's schedule before its first ClientHello. -/
def started (P : Primitives cs) (psk : Bytes) : KeySchedule cs :=
  after (KeySchedule.initializeEarlySecret P (some psk) .new)

/-- A ClientHello with its binder: `hello` is the message as a function of the binder, which
stands at its end. -/
def bound (P : Primitives cs) (ks : KeySchedule cs) (hello : Bytes → Bytes) : Bytes :=
  let blank := hello (KeySchedule.zero cs)
  let start := blank.length - (3 + cs.hashLen)
  match KeySchedule.createPskBinder P ks.clientState
      (ks.serverState.transcriptHash ++ blank.take start) with
  | .error _ => blank
  | .ok binder => hello binder.verify.val

/-- Bytewise addition, which commutes as scalar multiplication does. -/
def additive : X25519 where
  mult := fun a b => ⟨List.zipWith (· + ·) a.val b.val, by
    rw [List.length_zipWith, a.property, b.property, Nat.min_self]⟩
  basepoint := ⟨List.replicate X25519_LEN 1, List.length_replicate⟩

def suite : Primitives .aes128GcmSha256 := .checksumming .aes128GcmSha256

def clientSecret : GenericArray X25519_LEN := ⟨List.replicate X25519_LEN 2, List.length_replicate⟩

/-- A server with the identity "a", a PSK of three bytes and a keypair. -/
def config : TlsServerConfig where
  pskIdentity := [0x61]
  pskSecret := [1, 2, 3]
  serverRandom := .zeros 32
  dheKeypair := some (.fromSecret additive ⟨List.replicate X25519_LEN 5, List.length_replicate⟩)

/-- A ClientHello for that server with the given key exchange modes and X25519 shares. -/
def hello (modes : Bytes) (shares : List (GenericArray X25519_LEN)) (binder : Bytes) : Bytes :=
  ClientHelloRef.helloMessage (.zeros 32) [7] [
    ⟨43, [2, 3, 4]⟩,
    ⟨10, [0, 2, 0, 0x1d]⟩,
    ⟨45, sized 1 modes⟩,
    ⟨51, sized 2 (shares.flatMap fun share => [0, 0x1d] ++ sized 2 share.val)⟩,
    ⟨41, ClientHelloRef.offeredPsk [0x61] binder⟩]

/-- A ClientHello without a share that allows `psk_dhe_ke` only. -/
def shareless : Bytes := bound suite (started suite config.pskSecret) (hello [1] [])

/-- A ClientHello that is answered in `psk_dhe_ke` mode. -/
def direct : Bytes :=
  bound suite (started suite config.pskSecret)
    (hello [1] [additive.mult clientSecret additive.basepoint])

/-- The record that answers `shareless`. -/
def retryRecord : Bytes := plaintextRecord (retryMessage [7] .x25519)

/-- A second ClientHello, after `shareless` and the retry. -/
def second (modes : Bytes) (shares : List (GenericArray X25519_LEN)) : Bytes :=
  bound suite (after (absorbRetry suite shareless retryRecord (started suite config.pskSecret)))
    (hello modes shares)

/-- The second ClientHello with the share that was asked for. -/
def answering : Bytes := second [1] [additive.mult clientSecret additive.basepoint]

/-- The Finished record of a client that holds the given schedule. -/
def finishing (ks : KeySchedule .aes128GcmSha256) : Bytes :=
  (outcome (finishedRecord suite ks)).toOption.getD []

def room : Bytes := List.replicate 300 0

end GatoPskTls.Server.Peer
