import GatoPskTls.Lib.Stateful
import GatoPskTls.Lib.BigEndian

/-!
# Errors and wire enumerations

`TlsError` with the payloads the crate gives its variants, and the alert,
content-type and handshake-type enumerations with their wire codes.
-/
namespace GatoPskTls

export BigEndian (Bytes)

inductive ParseError
  | insufficientBytes
  | insufficientSpace
  | invalidData
  deriving DecidableEq, Repr

inductive AlertLevel
  | warning
  | fatal
  deriving DecidableEq, Repr

namespace AlertLevel

def toU8 : AlertLevel → UInt8
  | warning => 1
  | fatal => 2

def of : UInt8 → Option AlertLevel
  | 1 => some warning
  | 2 => some fatal
  | _ => none

theorem of_toU8 (level : AlertLevel) : of level.toU8 = some level := by
  cases level <;> rfl

end AlertLevel

inductive AlertDescription
  | closeNotify
  | unexpectedMessage
  | badRecordMac
  | recordOverflow
  | handshakeFailure
  | badCertificate
  | unsupportedCertificate
  | certificateRevoked
  | certificateExpired
  | certificateUnknown
  | illegalParameter
  | unknownCa
  | accessDenied
  | decodeError
  | decryptError
  | protocolVersion
  | insufficientSecurity
  | internalError
  | inappropriateFallback
  | userCanceled
  | missingExtension
  | unsupportedExtension
  | unrecognizedName
  | badCertificateStatusResponse
  | unknownPskIdentity
  | certificateRequired
  | noApplicationProtocol
  deriving DecidableEq, Repr

namespace AlertDescription

def toU8 : AlertDescription → UInt8
  | closeNotify => 0
  | unexpectedMessage => 10
  | badRecordMac => 20
  | recordOverflow => 22
  | handshakeFailure => 40
  | badCertificate => 42
  | unsupportedCertificate => 43
  | certificateRevoked => 44
  | certificateExpired => 45
  | certificateUnknown => 46
  | illegalParameter => 47
  | unknownCa => 48
  | accessDenied => 49
  | decodeError => 50
  | decryptError => 51
  | protocolVersion => 70
  | insufficientSecurity => 71
  | internalError => 80
  | inappropriateFallback => 86
  | userCanceled => 90
  | missingExtension => 109
  | unsupportedExtension => 110
  | unrecognizedName => 112
  | badCertificateStatusResponse => 113
  | unknownPskIdentity => 115
  | certificateRequired => 116
  | noApplicationProtocol => 120

def of : UInt8 → Option AlertDescription
  | 0 => some closeNotify
  | 10 => some unexpectedMessage
  | 20 => some badRecordMac
  | 22 => some recordOverflow
  | 40 => some handshakeFailure
  | 42 => some badCertificate
  | 43 => some unsupportedCertificate
  | 44 => some certificateRevoked
  | 45 => some certificateExpired
  | 46 => some certificateUnknown
  | 47 => some illegalParameter
  | 48 => some unknownCa
  | 49 => some accessDenied
  | 50 => some decodeError
  | 51 => some decryptError
  | 70 => some protocolVersion
  | 71 => some insufficientSecurity
  | 80 => some internalError
  | 86 => some inappropriateFallback
  | 90 => some userCanceled
  | 109 => some missingExtension
  | 110 => some unsupportedExtension
  | 112 => some unrecognizedName
  | 113 => some badCertificateStatusResponse
  | 115 => some unknownPskIdentity
  | 116 => some certificateRequired
  | 120 => some noApplicationProtocol
  | _ => none

theorem of_toU8 (description : AlertDescription) : of description.toU8 = some description := by
  cases description <;> rfl

end AlertDescription

/-- The transport error kinds that reach the crate through its I/O traits. -/
inductive ErrorKind
  | other
  | notFound
  | permissionDenied
  | connectionRefused
  | connectionReset
  | connectionAborted
  | notConnected
  | addrInUse
  | addrNotAvailable
  | brokenPipe
  | alreadyExists
  | invalidInput
  | invalidData
  | timedOut
  | interrupted
  | unsupported
  | outOfMemory
  | writeZero
  deriving DecidableEq, Repr

inductive TlsError
  | connectionClosed
  | unimplemented
  | missingHandshake
  | handshakeAborted (level : AlertLevel) (description : AlertDescription)
  | abortHandshake (level : AlertLevel) (description : AlertDescription)
  | ioError
  | internalError
  | invalidRecord
  | unknownContentType
  | invalidNonceLength
  | invalidTicketLength
  | unknownExtensionType
  | insufficientSpace
  | invalidHandshake
  | invalidCipherSuite
  | invalidSignatureScheme
  | invalidSignature
  | invalidExtensionsLength
  | invalidSessionIdLength
  | invalidSupportedVersions
  | invalidApplicationData
  | invalidKeyShare
  | invalidCertificate
  | invalidCertificateEntry
  | invalidCertificateRequest
  | invalidPrivateKey
  | unableToInitializeCryptoEngine
  | parseError (e : ParseError)
  | outOfMemory
  | cryptoError
  | encodeError
  | decodeError
  | io (kind : ErrorKind)
  deriving DecidableEq, Repr

/-- How a routine stops early: with an error value, by a panic (a failed `unwrap`, an index
out of bounds, a checked addition that overflows), or because its future was dropped while it
waited for the transport. -/
inductive Stop
  | err (e : TlsError)
  | panic
  | abandoned
  deriving DecidableEq, Repr

/-- `map_err` acts on error values alone. -/
def Stop.mapErr (f : TlsError → TlsError) : Stop → Stop
  | err e => err (f e)
  | panic => panic
  | abandoned => abandoned

def fatal (d : AlertDescription) : TlsError := .abortHandshake .fatal d

inductive ContentType
  | invalid
  | changeCipherSpec
  | alert
  | handshake
  | applicationData
  deriving DecidableEq, Repr

namespace ContentType

def toU8 : ContentType → UInt8
  | invalid => 0
  | changeCipherSpec => 20
  | alert => 21
  | handshake => 22
  | applicationData => 23

def of : UInt8 → Option ContentType
  | 0 => some invalid
  | 20 => some changeCipherSpec
  | 21 => some alert
  | 22 => some handshake
  | 23 => some applicationData
  | _ => none

theorem of_toU8 (c : ContentType) : of c.toU8 = some c := by
  cases c <;> rfl

theorem toU8_of {byte : UInt8} {c : ContentType} (h : of byte = some c) : c.toU8 = byte := by
  unfold of at h
  split at h <;> cases h <;> rfl

end ContentType

inductive HandshakeType
  | clientHello
  | serverHello
  | newSessionTicket
  | endOfEarlyData
  | encryptedExtensions
  | certificate
  | certificateRequest
  | certificateVerify
  | finished
  | keyUpdate
  | messageHash
  deriving DecidableEq, Repr

namespace HandshakeType

def toU8 : HandshakeType → UInt8
  | clientHello => 1
  | serverHello => 2
  | newSessionTicket => 4
  | endOfEarlyData => 5
  | encryptedExtensions => 8
  | certificate => 11
  | certificateRequest => 13
  | certificateVerify => 15
  | finished => 20
  | keyUpdate => 24
  | messageHash => 254

def of : UInt8 → Option HandshakeType
  | 1 => some clientHello
  | 2 => some serverHello
  | 4 => some newSessionTicket
  | 5 => some endOfEarlyData
  | 8 => some encryptedExtensions
  | 11 => some certificate
  | 13 => some certificateRequest
  | 15 => some certificateVerify
  | 20 => some finished
  | 24 => some keyUpdate
  | 254 => some messageHash
  | _ => none

end HandshakeType

/-- A byte array whose length is part of its type. -/
abbrev GenericArray (n : Nat) := {bytes : Bytes // bytes.length = n}

namespace GenericArray

def zeros (n : Nat) : GenericArray n := ⟨List.replicate n 0, List.length_replicate⟩

end GenericArray

end GatoPskTls
