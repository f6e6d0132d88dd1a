import GatoPskTls.Extensions

/-!
# Parsing a ClientHello

`ClientHelloRef.parse` reads one handshake message and computes where the binder
list starts by walking back from the end of the message.
-/
namespace GatoPskTls

open Stateful ParseBuffer

structure ClientHelloRef where
  legacyVersion : Nat
  random : GenericArray 32
  legacySessionId : Bytes
  cipherSuites : Bytes
  legacyCompressionMethods : Bytes
  extensions : List ClientHelloExtension
  bindersStartOffset : Nat
  deriving DecidableEq

namespace ClientHelloRef

/-- `map_err(|_| TlsError::InvalidHandshake)`. -/
def orInvalid {α : Type} (p : Parser ParseError α) : Parser TlsError α :=
  mapError (fun _ => .invalidHandshake) p

/-- Handshake header; the result is the end of the message it announces. -/
def parseHeader : Parser TlsError Nat := do
  let msgTypeRaw ← orInvalid readU8
  if msgTypeRaw ≠ HandshakeType.clientHello.toU8 then throw .invalidHandshake
  else do
    let bodyLen ← orInvalid readU24
    let bodyStart ← offset
    return bodyStart + bodyLen

def parseSessionId : Parser TlsError Bytes := do
  let sessionIdLen ← orInvalid readU8
  if sessionIdLen.toNat > 32 then throw .invalidSessionIdLength
  else do
    let sessionIdBuf ← orInvalid (slice sessionIdLen.toNat)
    return sessionIdBuf.buffer

def parseCipherSuites : Parser TlsError Bytes := do
  let cipherSuitesLen ← orInvalid readU16
  if cipherSuitesLen < 2 ∨ cipherSuitesLen % 2 ≠ 0 then throw .invalidHandshake
  else do
    let cipherSuitesBuf ← orInvalid (slice cipherSuitesLen)
    return cipherSuitesBuf.buffer

def parseCompressionMethods : Parser TlsError Bytes := do
  let compLen ← orInvalid readU8
  if compLen.toNat < 1 then throw .invalidHandshake
  else do
    let compBuf ← orInvalid (slice compLen.toNat)
    return compBuf.buffer

/-- `psk_indices`: the positions of the pre_shared_key extensions. -/
def pskIndices (extensions : List ClientHelloExtension) : List Nat :=
  (extensions.zipIdx.filterMap fun (ext, i) =>
    match ext with
    | .preSharedKey _ => some i
    | _ => none)

/-- The wire size of a binder list: its own length prefix, then each binder with its prefix. -/
def bindersWireLen (binders : List Bytes) : Nat :=
  binders.foldl (fun wireLen binder => wireLen + (1 + binder.length)) 2

def findBindersStart (extensions : List ClientHelloExtension) (totalMessageLength : Nat) :
    Except TlsError Nat :=
  let indices := pskIndices extensions
  if indices.length > 1 then .error (fatal .illegalParameter)
  else
    match indices.head? with
    | none => .ok totalMessageLength
    | some idx =>
        if idx ≠ extensions.length - 1 then .error (fatal .illegalParameter)
        else
          match extensions[idx]? with
          | some (.preSharedKey psk) =>
              let wireLen := bindersWireLen psk.binders
              if wireLen > totalMessageLength then .error .invalidHandshake
              else .ok (totalMessageLength - wireLen)
          | _ => .ok totalMessageLength

def parse (NEXT : Nat) : Parser TlsError ClientHelloRef := do
  let totalMessageLength ← parseHeader
  let legacyVersion ← orInvalid readU16
  let random ← orInvalid (fill 32)
  let legacySessionId ← parseSessionId
  let cipherSuites ← parseCipherSuites
  let legacyCompressionMethods ← parseCompressionMethods
  let extensions ← ClientHelloExtension.group.parseVector NEXT
  -- the body must exactly fill what the handshake header advertised
  if (← offset) ≠ totalMessageLength then throw .invalidHandshake
  else do
    let bindersStartOffset ← fromResult (findBindersStart extensions totalMessageLength)
    return { legacyVersion, random, legacySessionId, cipherSuites, legacyCompressionMethods,
             extensions, bindersStartOffset }

end ClientHelloRef

end GatoPskTls
