import GatoPskTls.CryptoBuffer
import GatoPskTls.Extensions

/-!
# ServerHello

The extensions a ServerHello may carry, the parser the client uses, and the
encoder the server uses with the bytes it writes.
-/
namespace GatoPskTls

open Stateful BigEndian ParseBuffer CryptoBuffer

inductive ServerHelloExtension
  | keyShare (data : KeyShareServerHello)
  | preSharedKey (data : PreSharedKeyServerHello)
  | cookie (data : Unimplemented)
  | supportedVersions (data : SupportedVersionsServerHello)
  deriving DecidableEq, Repr

/-- `map_err(|_| TlsError::EncodeError)`. -/
def orEncodeError (m : CryptoBuffer.M Unit) : CryptoBuffer.M Unit :=
  mapError (fun _ => .encodeError) m

namespace ServerHelloExtension

def group : ExtensionGroup ServerHelloExtension
  | .keyShare => some (return keyShare (← KeyShareServerHello.parse))
  | .preSharedKey => some (return preSharedKey (← PreSharedKeyServerHello.parse))
  | .cookie => some (return cookie (← Unimplemented.parse))
  | .supportedVersions => some (return supportedVersions (← SupportedVersionsServerHello.parse))
  | _ => none

def extensionType : ServerHelloExtension → ExtensionType
  | keyShare _ => .keyShare
  | preSharedKey _ => .preSharedKey
  | cookie _ => .cookie
  | supportedVersions _ => .supportedVersions

def encodeData : ServerHelloExtension → CryptoBuffer.M Unit
  | keyShare data => do
      orEncodeError (pushU16 data.entry.group.asU16)
      orEncodeError (withU16Length (extendFromSlice data.entry.opaqueBytes))
  | preSharedKey data => orEncodeError (pushU16 data.selectedIdentity)
  | cookie data => extendFromSlice data.data
  | supportedVersions data => orEncodeError (pushU16 data.selectedVersion.code)

def encode (ext : ServerHelloExtension) : CryptoBuffer.M Unit := do
  orEncodeError (pushU16 ext.extensionType.toU16)
  withU16Length ext.encodeData

/-- The data of an extension as bytes. -/
def dataWire : ServerHelloExtension → Bytes
  | keyShare data => bigEndian 2 data.entry.group.asU16 ++ sized 2 data.entry.opaqueBytes
  | preSharedKey data => bigEndian 2 data.selectedIdentity
  | cookie data => data.data
  | supportedVersions data => bigEndian 2 data.selectedVersion.code

def wire (ext : ServerHelloExtension) : Bytes :=
  bigEndian 2 ext.extensionType.toU16 ++ sized 2 ext.dataWire

theorem appends_encodeData (ext : ServerHelloExtension) : Appends ext.encodeData ext.dataWire := by
  cases ext with
  | keyShare data =>
      exact ((appends_extendFromSlice _).mapError _).bind
        ((appends_withU16Length (appends_extendFromSlice _)).mapError _)
  | preSharedKey data => exact (appends_extendFromSlice _).mapError _
  | cookie data => exact appends_extendFromSlice _
  | supportedVersions data => exact (appends_extendFromSlice _).mapError _

theorem appends_encode (ext : ServerHelloExtension) : Appends ext.encode ext.wire :=
  ((appends_extendFromSlice _).mapError _).bind (appends_withU16Length ext.appends_encodeData)

end ServerHelloExtension

structure ServerHello where
  extensions : List ServerHelloExtension
  deriving DecidableEq, Repr

inductive CipherSuite
  | tlsAes128GcmSha256
  | tlsAes256GcmSha384
  | tlsChacha20Poly1305Sha256
  | tlsAes128CcmSha256
  | tlsAes128Ccm8Sha256
  | tlsPskAes128GcmSha256
  deriving DecidableEq, Repr

def CipherSuite.of : Nat → Option CipherSuite
  | 0x1301 => some tlsAes128GcmSha256
  | 0x1302 => some tlsAes256GcmSha384
  | 0x1303 => some tlsChacha20Poly1305Sha256
  | 0x1304 => some tlsAes128CcmSha256
  | 0x1305 => some tlsAes128Ccm8Sha256
  | 0x00A8 => some tlsPskAes128GcmSha256
  | _ => none

namespace ServerHello

/-- Version, random, session id, suite and compression method are read past; only
the extensions are kept. -/
def parse : Parser TlsError ServerHello := do
  let _ ← mapError (fun _ => TlsError.invalidHandshake) readU16
  let _ ← mapError TlsError.parseError (fill 32)
  let sessionIdLength ← mapError (fun _ => TlsError.invalidSessionIdLength) readU8
  let _ ← mapError (fun _ => TlsError.invalidSessionIdLength) (slice sessionIdLength.toNat)
  let _ ← mapError (fun _ => TlsError.invalidCipherSuite) (readEnum16 CipherSuite.of)
  let _ ← mapError TlsError.parseError readU8
  return ⟨← ServerHelloExtension.group.parseVector 4⟩

def keyShare (hello : ServerHello) : Option KeyShareEntry :=
  hello.extensions.findSome? fun
    | .keyShare data => some data.entry
    | _ => none

end ServerHello

structure ServerHelloEmit where
  random : GenericArray 32
  legacySessionIdEcho : Bytes
  cipherSuite : Nat
  extensions : List ServerHelloExtension
  deriving DecidableEq

namespace ServerHelloEmit

def encodeFields (sh : ServerHelloEmit) : CryptoBuffer.M Unit := do
  orEncodeError (pushU16 0x0303)
  orEncodeError (extendFromSlice sh.random.val)
  orEncodeError (push (UInt8.ofNat sh.legacySessionIdEcho.length))
  orEncodeError (extendFromSlice sh.legacySessionIdEcho)
  orEncodeError (pushU16 sh.cipherSuite)
  orEncodeError (push 0)
  withU16Length (sh.extensions.forM ServerHelloExtension.encode)

def encode (sh : ServerHelloEmit) : CryptoBuffer.M Unit :=
  if sh.legacySessionIdEcho.length > 32 then throw .encodeError else sh.encodeFields

/-- The body of the message as bytes. -/
def wire (sh : ServerHelloEmit) : Bytes :=
  bigEndian 2 0x0303 ++ (sh.random.val ++ (sized 1 sh.legacySessionIdEcho ++
    (bigEndian 2 sh.cipherSuite ++ ([0] ++
      sized 2 (sh.extensions.flatMap ServerHelloExtension.wire)))))

theorem appends_encode {sh : ServerHelloEmit} (h : sh.legacySessionIdEcho.length ≤ 32) :
    Appends sh.encode sh.wire := by
  rw [encode, if_neg (by omega), wire, show sized 1 sh.legacySessionIdEcho =
    [UInt8.ofNat sh.legacySessionIdEcho.length] ++ sh.legacySessionIdEcho by simp [sized, bigEndian],
    List.append_assoc]
  refine ((appends_extendFromSlice _).mapError _).bind <|
    ((appends_extendFromSlice _).mapError _).bind <| ((appends_push _).mapError _).bind <|
    ((appends_extendFromSlice _).mapError _).bind <|
    ((appends_extendFromSlice _).mapError _).bind <| ((appends_push 0).mapError _).bind <|
    appends_withU16Length (.forM _ fun ext _ => ext.appends_encode)

end ServerHelloEmit

end GatoPskTls
