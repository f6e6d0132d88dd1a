import GatoPskTls.ServerHello
import GatoPskTls.Server.Negotiate

/-!
# Server: writing records

The writer over the caller's output buffer and the three records of a flight, or
the one record of a HelloRetryRequest. Each record writer also feeds the messages
it writes to the running transcript.
-/
namespace GatoPskTls.Server

open GatoPskTls Stateful BigEndian Splice

variable {cs : TlsCipherSuite}

structure OutWriter where
  buf : Bytes
  pos : Nat
  deriving DecidableEq

namespace OutWriter

def new (buf : Bytes) : OutWriter := ⟨buf, 0⟩

def append (data : Bytes) : EStateM Stop OutWriter Unit := fun w =>
  let stop := w.pos + data.length
  if stop > w.buf.length then .error (.err .insufficientSpace) w
  else .ok () { buf := splice w.buf w.pos data, pos := stop }

/-- Bytes written back into a field that was left blank. -/
def patch (pos : Nat) (data : Bytes) : EStateM Stop OutWriter Unit :=
  modify fun w => { w with buf := splice w.buf pos data }

/-- `&writer.buf[start..writer.pos]`. -/
def since (w : OutWriter) (start : Nat) : Bytes := (w.buf.drop start).take (w.pos - start)

end OutWriter

/-- The key schedule and the writer, which record writers borrow together. -/
structure Desk (cs : TlsCipherSuite) where
  schedule : KeySchedule cs
  writer : OutWriter
  deriving DecidableEq

namespace Desk

abbrev M (cs : TlsCipherSuite) := EStateM Stop (Desk cs)

def onSchedule {α : Type} (x : KeySchedule.M cs α) : M cs α :=
  onPart (·.schedule) (fun d ks => { d with schedule := ks }) x

def onWriter {α : Type} (x : EStateM Stop OutWriter α) : M cs α :=
  onPart (·.writer) (fun d w => { d with writer := w }) x

end Desk

open Desk OutWriter

def HRR_SPECIAL_RANDOM : Bytes :=
  [0xCF, 0x21, 0xAD, 0x74, 0xE5, 0x9A, 0x61, 0x11, 0xBE, 0x1D, 0x8C, 0x02, 0x1E, 0x65, 0xB8, 0x91,
   0xC2, 0xA2, 0x11, 0x16, 0x7A, 0xBB, 0x8C, 0x5E, 0x07, 0x9E, 0x09, 0xE2, 0xC8, 0xA8, 0x33, 0x9C]

/-- The fields of a HelloRetryRequest body up to its extensions. -/
def appendRetryFields (legacySessionIdEcho : Bytes) : EStateM Stop OutWriter Unit := do
  append [0x03, 0x03]
  append HRR_SPECIAL_RANDOM
  if legacySessionIdEcho.length > 32 then throw (.err .encodeError)
  else do
    append [UInt8.ofNat legacySessionIdEcho.length]
    append legacySessionIdEcho
    append (bigEndian 2 TLS_AES_128_GCM_SHA256)
    append [0]

def appendRetryExtensions (selectedGroup : NamedGroup) : EStateM Stop OutWriter Unit := do
  append (bigEndian 2 0x002b)
  append (bigEndian 2 2)
  append (bigEndian 2 0x0304)
  append (bigEndian 2 0x0033)
  append (bigEndian 2 2)
  append (bigEndian 2 selectedGroup.asU16)

/-- The record itself; the result is where its handshake message starts. -/
def emitHelloRetryRequest (legacySessionIdEcho : Bytes) (selectedGroup : NamedGroup) :
    EStateM Stop OutWriter Nat := do
  let recordStart := (← get).pos
  append [ContentType.handshake.toU8, 0x03, 0x03, 0, 0]
  let hsHeaderPos := (← get).pos
  append [HandshakeType.serverHello.toU8, 0, 0, 0]
  let bodyStart := (← get).pos
  appendRetryFields legacySessionIdEcho
  let extListLenPos := (← get).pos
  append [0, 0]
  let extContentStart := (← get).pos
  appendRetryExtensions selectedGroup
  let extContentEnd := (← get).pos
  patch extListLenPos (bigEndian 2 (extContentEnd - extContentStart))
  patch (hsHeaderPos + 1) (bigEndian 3 (extContentEnd - bodyStart))
  patch (recordStart + 3) (bigEndian 2 (extContentEnd - recordStart - RECORD_HEADER_LEN))
  return hsHeaderPos

/-- The synthetic message that stands for ClientHello1 in the transcript. -/
def messageHash (P : Primitives cs) (ch1 : Bytes) : Bytes :=
  [HandshakeType.messageHash.toU8, 0, UInt8.ofNat (cs.hashLen / 256), UInt8.ofNat cs.hashLen] ++
    (P.hash ch1).val

/-- The transcript restarts with the synthetic message and the HelloRetryRequest. -/
def rewriteTranscript (P : Primitives cs) (ch1HandshakeMessage : Bytes) (hsHeaderPos : Nat) :
    Desk.M cs Unit := do
  let d ← get
  onSchedule (KeySchedule.replaceTranscriptHash
    (messageHash P ch1HandshakeMessage ++ d.writer.since hsHeaderPos))

def writeHelloRetryRequestRecord (P : Primitives cs) (legacySessionIdEcho : Bytes)
    (selectedGroup : NamedGroup) (ch1HandshakeMessage : Bytes) : Desk.M cs Unit := do
  let hsHeaderPos ← onWriter (emitHelloRetryRequest legacySessionIdEcho selectedGroup)
  rewriteTranscript P ch1HandshakeMessage hsHeaderPos

/-- The ServerHello's extensions; a key share needs a keypair in the config. -/
def serverHelloExtensions (config : TlsServerConfig) (selectedIdx : Nat) :
    KexMode → Except TlsError (List ServerHelloExtension)
  | .pskKe => .ok [.supportedVersions ⟨TLS13⟩, .preSharedKey ⟨selectedIdx⟩]
  | .pskDheKe _ =>
      match config.dheKeypair with
      | none => .error .internalError
      | some dhe => .ok [.supportedVersions ⟨TLS13⟩,
          .keyShare ⟨⟨.x25519, dhe.publicKey.val⟩⟩, .preSharedKey ⟨selectedIdx⟩]

/-- Run an encoder over the buffer from `start` on; the writer moves behind what it wrote. -/
def encodeFrom (start : Nat) (enc : CryptoBuffer.M Unit) : EStateM Stop OutWriter Nat := fun w =>
  match enc (.wrap (w.buf.drop start)) with
  | .error e _ => .error (.err e) w
  | .ok () b => .ok b.len { buf := w.buf.take start ++ b.buf, pos := start + b.len }

def emitServerHello (config : TlsServerConfig) (legacySessionIdEcho : Bytes) (selectedIdx : Nat)
    (mode : KexMode) : EStateM Stop OutWriter Nat := do
  let recordStart := (← get).pos
  append [ContentType.handshake.toU8, 0x03, 0x03, 0, 0]
  let hsHeaderPos := (← get).pos
  append [HandshakeType.serverHello.toU8, 0, 0, 0]
  let bodyStart := (← get).pos
  let extensions ← fromResult ((serverHelloExtensions config selectedIdx mode).mapError .err)
  let sh : ServerHelloEmit :=
    { random := config.serverRandom, legacySessionIdEcho, cipherSuite := TLS_AES_128_GCM_SHA256,
      extensions }
  let bodyLen ← encodeFrom bodyStart sh.encode
  patch (hsHeaderPos + 1) (bigEndian 3 bodyLen)
  let stop := (← get).pos
  patch (recordStart + 3) (bigEndian 2 (stop - recordStart - RECORD_HEADER_LEN))
  return hsHeaderPos

def absorbSince (hsHeaderPos : Nat) : Desk.M cs Unit := do
  let d ← get
  onSchedule (KeySchedule.updateTranscript (d.writer.since hsHeaderPos))

def writeServerHelloRecord (config : TlsServerConfig) (legacySessionIdEcho : Bytes)
    (selectedIdx : Nat) (mode : KexMode) : Desk.M cs Unit := do
  let hsHeaderPos ← onWriter (emitServerHello config legacySessionIdEcho selectedIdx mode)
  absorbSince hsHeaderPos

/-- A message encoder: given the room in its slice, the bytes it writes at its start. -/
abbrev InnerEncoder (cs : TlsCipherSuite) := (room : Nat) → KeySchedule cs → Except TlsError Bytes

def encodeEncryptedExtensions : InnerEncoder cs := fun room _ =>
  if room < HANDSHAKE_HEADER_LEN + 2 then .error .insufficientSpace
  else .ok [HandshakeType.encryptedExtensions.toU8, 0, 0, 2, 0, 0]

def encodeServerFinished (P : Primitives cs) : InnerEncoder cs := fun room ks =>
  if room < HANDSHAKE_HEADER_LEN + cs.hashLen then .error .insufficientSpace
  else
    match ks.createServerFinished P with
    | .error _ => .error .cryptoError
    | .ok finished => .ok ([HandshakeType.finished.toU8, 0, UInt8.ofNat (cs.hashLen / 256),
        UInt8.ofNat cs.hashLen] ++ finished.verify.val)

/-- The header of a protected record, which is also its associated data. -/
def protectedHeader (ciphertextLen : Nat) : Bytes :=
  [ContentType.applicationData.toU8, 0x03, 0x03] ++ bigEndian 2 ciphertextLen

/-- Seal the first `plaintextLen` bytes of a region in place. -/
def sealRegion (P : Primitives cs) (s : KeyScheduleState cs) (aad region : Bytes)
    (plaintextLen : Nat) : Except Stop Bytes := do
  let key ← s.getKey.mapError .err
  let nonce ← s.getNonce.mapError .err
  match CryptoBuffer.encryptInPlace P key nonce aad (.wrapWithPos region plaintextLen) with
  | .error _ _ => .error (.err .cryptoError)
  | .ok () b => .ok b.buf

/-- The server seals with `server_state`, the state its peer reads with. -/
def incrementServerCounter : KeySchedule.M cs Unit :=
  KeySchedule.onServer KeyScheduleState.incrementCounter

def incrementClientCounter : KeySchedule.M cs Unit :=
  KeySchedule.onClient KeyScheduleState.incrementCounter

/-- The ciphertext stands where the plaintext stood; the counter moves, and the length
goes into the header last. -/
def closeHandshakeRecord (recordStart innerStart : Nat) (ciphertext : Bytes) : Desk.M cs Unit := do
  onWriter (modify fun w =>
    { buf := splice w.buf innerStart ciphertext, pos := innerStart + ciphertext.length })
  onSchedule incrementServerCounter
  onWriter (patch (recordStart + 3) (bigEndian 2 ciphertext.length))

/-- The part of the record writer behind the inner message: marker, transcript, AEAD. -/
def sealHandshakeRecord (P : Primitives cs) (recordStart innerStart : Nat) (inner : Bytes) :
    Desk.M cs Unit := do
  onWriter (patch innerStart (inner ++ [ContentType.handshake.toU8]))
  onSchedule (KeySchedule.updateTranscript inner)
  let d ← get
  let plaintextLen := inner.length + 1
  let ciphertextLen := plaintextLen + cs.tagSize
  if innerStart + ciphertextLen > d.writer.buf.length then throw (.err .insufficientSpace)
  else do
    let region := (d.writer.buf.drop innerStart).take ciphertextLen
    let ciphertext ← fromResult (sealRegion P d.schedule.serverState.state
      (protectedHeader ciphertextLen) region plaintextLen)
    closeHandshakeRecord recordStart innerStart ciphertext

def writeEncryptedHandshakeRecord (P : Primitives cs) (innerEncoder : InnerEncoder cs) :
    Desk.M cs Unit := do
  let recordStart := (← get).writer.pos
  onWriter (append [ContentType.applicationData.toU8, 0x03, 0x03, 0, 0])
  let d ← get
  let innerStart := d.writer.pos
  let remaining := d.writer.buf.length - innerStart
  if remaining < 1 + cs.tagSize then throw (.err .insufficientSpace)
  else do
    let inner ← fromResult ((innerEncoder (remaining - 1 - cs.tagSize) d.schedule).mapError .err)
    sealHandshakeRecord P recordStart innerStart inner

end GatoPskTls.Server
