import GatoPskTls.Record

/-!
# Writing records

The buffer a client collects one record in, and the records it writes: a record is opened
with a header, filled, and closed by sealing it in place. Arithmetic that would wrap and
slices out of range are panics, as in a checked build.
-/
namespace GatoPskTls

open Stateful BigEndian Splice

variable {cs : TlsCipherSuite}

def HEADER_SIZE : Nat := 5
def TLS_RECORD_OVERHEAD : Nat := 128

/-- `a - b` on machine integers. -/
def checkedSub (a b : Nat) : Except Stop Nat := if b ≤ a then .ok (a - b) else .error .panic

inductive ClientRecordHeader
  | handshake (encrypted : Bool)
  | alert (encrypted : Bool)
  | applicationData
  deriving DecidableEq, Repr

namespace ClientRecordHeader

def isEncrypted : ClientRecordHeader → Bool
  | handshake encrypted => encrypted
  | alert encrypted => encrypted
  | applicationData => true

/-- An unencrypted alert goes out under the content type of a ChangeCipherSpec. -/
def headerContentType : ClientRecordHeader → ContentType
  | handshake false => .handshake
  | alert false => .changeCipherSpec
  | _ => .applicationData

def trailerContentType : ClientRecordHeader → ContentType
  | handshake _ => .handshake
  | alert _ => .alert
  | applicationData => .applicationData

def version : ClientRecordHeader → Bytes
  | handshake false | alert false => [0x03, 0x01]
  | _ => [0x03, 0x03]

def encode (header : ClientRecordHeader) : CryptoBuffer.M Unit := do
  orEncodeError (CryptoBuffer.push header.headerContentType.toU8)
  orEncodeError (CryptoBuffer.extendFromSlice header.version)

end ClientRecordHeader

/-- An operation on a crypto buffer that may also panic. -/
abbrev CryptoBuffer.Op := EStateM Stop CryptoBuffer Unit

/-- `offset`, `forward` and `rewind`. -/
def CryptoBuffer.offsetTo (offset : Nat) : CryptoBuffer.Op := do
  let b ← get
  if b.len + b.offset < offset then throw .panic else set (b.moveTo offset)

/-- The header of a protected record, which is its associated data. -/
def additionalData (len : Nat) : Bytes :=
  [ContentType.applicationData.toU8, 0x03, 0x03] ++ bigEndian 2 len

def encrypt (P : Primitives cs) (s : KeyScheduleState cs) : CryptoBuffer.Op := do
  let clientKey ← fromResult (s.getKey.mapError .err)
  let nonce ← fromResult (s.getNonce.mapError .err)
  let b ← get
  let len := b.len + cs.tagSize
  if len > b.capacity then throw (.err .insufficientSpace)
  else
    mapError (fun _ => .err .invalidApplicationData)
      (CryptoBuffer.encryptInPlace P clientKey nonce (additionalData len))

structure WriteBuffer where
  buffer : Bytes
  pos : Nat
  currentHeader : Option ClientRecordHeader
  deriving DecidableEq

namespace WriteBuffer

abbrev M := EStateM Stop WriteBuffer

def new (buffer : Bytes) : Except Stop WriteBuffer :=
  if buffer.length > TLS_RECORD_OVERHEAD then .ok ⟨buffer, 0, none⟩ else .error .panic

def maxBlockSize (w : WriteBuffer) : Except Stop Nat := checkedSub w.buffer.length TLS_RECORD_OVERHEAD

def isFull (w : WriteBuffer) : Except Stop Bool := do return w.pos == (← w.maxBlockSize)

def isEmpty (w : WriteBuffer) : Bool := w.pos == 0

def space (w : WriteBuffer) : Except Stop Nat := do checkedSub (← w.maxBlockSize) w.pos

def contains (w : WriteBuffer) (header : ClientRecordHeader) : Bool := w.currentHeader == some header

/-- As much as fits is taken; the result is how much that was. -/
def append (buf : Bytes) : M Nat := do
  let w ← get
  let buffered := min buf.length (← fromResult w.space)
  set { w with buffer := splice w.buffer w.pos (buf.take buffered), pos := w.pos + buffered }
  return buffered

def withBuffer (op : CryptoBuffer.Op) : M Unit := fun w =>
  match op (.wrapWithPos w.buffer w.pos) with
  | .ok () b => .ok () { w with buffer := b.buf, pos := b.len }
  | .error e b => .error e { w with buffer := b.buf }

def startRecord (header : ClientRecordHeader) : M Unit := do
  let w ← get
  if w.currentHeader.isSome then throw .panic
  else do
    set { w with currentHeader := some header }
    withBuffer do
      mapError .err header.encode
      mapError .err (CryptoBuffer.pushU16 0)
      CryptoBuffer.offsetTo 0

/-- The content type trailer, and everything behind the header sealed in place. -/
def sealRecord (P : Primitives cs) (s : KeyScheduleState cs) (header : ClientRecordHeader) :
    CryptoBuffer.Op :=
  if !header.isEncrypted then pure ()
  else do
    mapError .err (orEncodeError (CryptoBuffer.push header.trailerContentType.toU8))
    CryptoBuffer.offsetTo HEADER_SIZE
    encrypt P s
    CryptoBuffer.offsetTo 0

/-- The length goes into the header, and the buffer is empty again. -/
def finishRecord : M Bytes := do
  let w ← get
  if w.pos < HEADER_SIZE ∨ w.buffer.length < w.pos then throw .panic
  else do
    let buffer := splice w.buffer 3 (bigEndian 2 (w.pos - HEADER_SIZE))
    set { buffer, pos := 0, currentHeader := none : WriteBuffer }
    return buffer.take w.pos

def closeRecord (P : Primitives cs) (s : KeyScheduleState cs) : M Bytes := do
  let w ← get
  match w.currentHeader with
  | none => throw .panic
  | some header => do
      set { w with currentHeader := none }
      withBuffer (sealRecord P s header)
      finishRecord

end WriteBuffer

structure CertificateVerify where
  signatureScheme : SignatureScheme
  signature : Bytes
  deriving DecidableEq, Repr

/-- The messages a client sends behind its ClientHello. -/
inductive ClientHandshake (cs : TlsCipherSuite)
  | clientCert (certificate : CertificateRef)
  | clientCertVerify (verify : CertificateVerify)
  | finished (finished : Finished cs)
  deriving DecidableEq

namespace ClientHandshake

def handshakeType : ClientHandshake cs → HandshakeType
  | clientCert _ => .certificate
  | clientCertVerify _ => .certificateVerify
  | finished _ => .finished

def encodeX509 (cert : Bytes) : CryptoBuffer.M Unit := do
  CryptoBuffer.withU24Length (CryptoBuffer.extendFromSlice cert)
  CryptoBuffer.pushU16 0

/-- The certificates in front of the first raw public key, which is a `todo!`. -/
def encodable : List CertificateEntryRef → List Bytes
  | .x509 cert :: entries => cert :: encodable entries
  | _ => []

def encodeInner : ClientHandshake cs → CryptoBuffer.M Unit
  | clientCert certificate => do
      CryptoBuffer.withU8Length (CryptoBuffer.extendFromSlice certificate.requestContext)
      CryptoBuffer.withU24Length ((encodable certificate.entries).forM encodeX509)
  | clientCertVerify verify => do
      CryptoBuffer.pushU16 verify.signatureScheme.asU16
      CryptoBuffer.withU16Length (CryptoBuffer.extendFromSlice verify.signature)
  | finished f => orEncodeError (CryptoBuffer.extendFromSlice f.verify.val)

def encode (handshake : ClientHandshake cs) : CryptoBuffer.M Unit := do
  orEncodeError (CryptoBuffer.push handshake.handshakeType.toU8)
  CryptoBuffer.withU24Length handshake.encodeInner

def panics : ClientHandshake cs → Bool
  | clientCert certificate => (encodable certificate.entries).length < certificate.entries.length
  | _ => false

end ClientHandshake

inductive ClientRecord (cs : TlsCipherSuite)
  | handshake (message : ClientHandshake cs) (encrypted : Bool)
  | alert (alert : Alert) (encrypted : Bool)
  deriving DecidableEq

namespace ClientRecord

def header : ClientRecord cs → ClientRecordHeader
  | handshake _ encrypted => .handshake encrypted
  | alert _ encrypted => .alert encrypted

def closeNotify (opened : Bool) : ClientRecord cs := alert ⟨.warning, .closeNotify⟩ opened

def encodePayload : ClientRecord cs → CryptoBuffer.Op
  | handshake message _ => do
      mapError .err message.encode
      if message.panics then throw .panic
  | alert a _ => mapError .err a.encode

/-- What a record adds to the transcript, given its encoded payload. -/
def transcribed : ClientRecord cs → Bytes → Bytes
  | handshake _ _, payload => payload
  | alert _ _, _ => []

end ClientRecord

end GatoPskTls
