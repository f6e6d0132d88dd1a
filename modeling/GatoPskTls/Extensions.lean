import GatoPskTls.ParseBuffer

/-!
# Extensions

The extension types, the data of each extension the crate understands, and the
parser that `extension_group!` expands to. A group lists the extension types
allowed in one message; an unlisted type is an error, an unknown code point is
skipped.
-/
namespace GatoPskTls

open Stateful BigEndian ParseBuffer

/-- Read a two-byte code point and look it up. -/
def readEnum16 {α : Type} (of : Nat → Option α) : Parser ParseError α := do
  match of (← readU16) with
  | some a => pure a
  | none => throw .invalidData

/-- Read a one-byte code point and look it up. -/
def readEnum8 {α : Type} (of : UInt8 → Option α) : Parser ParseError α := do
  match of (← readU8) with
  | some a => pure a
  | none => throw .invalidData

/-- A code point that was looked up is known, and looking it up reads nothing. -/
theorem known_eq_ok {α : Type} {found : Option α} {a : α} {b b' : ParseBuffer} :
    (match found with
      | some a => pure a
      | none => throw .invalidData : Parser ParseError α) b = .ok a b' ↔ found = some a ∧ b = b' := by
  cases found with
  | none => simp
  | some c => simp

inductive ExtensionType
  | serverName
  | maxFragmentLength
  | statusRequest
  | supportedGroups
  | signatureAlgorithms
  | useSrtp
  | heartbeat
  | applicationLayerProtocolNegotiation
  | signedCertificateTimestamp
  | clientCertificateType
  | serverCertificateType
  | padding
  | compressCertificate
  | preSharedKey
  | earlyData
  | supportedVersions
  | cookie
  | pskKeyExchangeModes
  | certificateAuthorities
  | oidFilters
  | postHandshakeAuth
  | signatureAlgorithmsCert
  | keyShare
  deriving DecidableEq, Repr

namespace ExtensionType

def toU16 : ExtensionType → Nat
  | serverName => 0
  | maxFragmentLength => 1
  | statusRequest => 5
  | supportedGroups => 10
  | signatureAlgorithms => 13
  | useSrtp => 14
  | heartbeat => 15
  | applicationLayerProtocolNegotiation => 16
  | signedCertificateTimestamp => 18
  | clientCertificateType => 19
  | serverCertificateType => 20
  | padding => 21
  | compressCertificate => 27
  | preSharedKey => 41
  | earlyData => 42
  | supportedVersions => 43
  | cookie => 44
  | pskKeyExchangeModes => 45
  | certificateAuthorities => 47
  | oidFilters => 48
  | postHandshakeAuth => 49
  | signatureAlgorithmsCert => 50
  | keyShare => 51

def of : Nat → Option ExtensionType
  | 0 => some serverName
  | 1 => some maxFragmentLength
  | 5 => some statusRequest
  | 10 => some supportedGroups
  | 13 => some signatureAlgorithms
  | 14 => some useSrtp
  | 15 => some heartbeat
  | 16 => some applicationLayerProtocolNegotiation
  | 18 => some signedCertificateTimestamp
  | 19 => some clientCertificateType
  | 20 => some serverCertificateType
  | 21 => some padding
  | 27 => some compressCertificate
  | 41 => some preSharedKey
  | 42 => some earlyData
  | 43 => some supportedVersions
  | 44 => some cookie
  | 45 => some pskKeyExchangeModes
  | 47 => some certificateAuthorities
  | 48 => some oidFilters
  | 49 => some postHandshakeAuth
  | 50 => some signatureAlgorithmsCert
  | 51 => some keyShare
  | _ => none

def parse : Parser ParseError ExtensionType := readEnum16 of

end ExtensionType

inductive NamedGroup
  | secp256r1
  | secp384r1
  | secp521r1
  | x25519
  | x448
  | ffdhe2048
  | ffdhe3072
  | ffdhe4096
  | ffdhe6144
  | ffdhe8192
  | x25519MLKEM768
  | secP256r1MLKEM768
  | secP384r1MLKEM1024
  deriving DecidableEq, Repr

namespace NamedGroup

def asU16 : NamedGroup → Nat
  | secp256r1 => 0x0017
  | secp384r1 => 0x0018
  | secp521r1 => 0x0019
  | x25519 => 0x001D
  | x448 => 0x001E
  | ffdhe2048 => 0x0100
  | ffdhe3072 => 0x0101
  | ffdhe4096 => 0x0102
  | ffdhe6144 => 0x0103
  | ffdhe8192 => 0x0104
  | secP256r1MLKEM768 => 0x11EB
  | x25519MLKEM768 => 0x11EC
  | secP384r1MLKEM1024 => 0x11ED

def of : Nat → Option NamedGroup
  | 0x0017 => some secp256r1
  | 0x0018 => some secp384r1
  | 0x0019 => some secp521r1
  | 0x001D => some x25519
  | 0x001E => some x448
  | 0x0100 => some ffdhe2048
  | 0x0101 => some ffdhe3072
  | 0x0102 => some ffdhe4096
  | 0x0103 => some ffdhe6144
  | 0x0104 => some ffdhe8192
  | 0x11EB => some secP256r1MLKEM768
  | 0x11EC => some x25519MLKEM768
  | 0x11ED => some secP384r1MLKEM1024
  | _ => none

def parse : Parser ParseError NamedGroup := readEnum16 of

end NamedGroup

inductive SignatureScheme
  | rsaPkcs1Sha256
  | rsaPkcs1Sha384
  | rsaPkcs1Sha512
  | ecdsaSecp256r1Sha256
  | ecdsaSecp384r1Sha384
  | ecdsaSecp521r1Sha512
  | rsaPssRsaeSha256
  | rsaPssRsaeSha384
  | rsaPssRsaeSha512
  | ed25519
  | ed448
  | rsaPssPssSha256
  | rsaPssPssSha384
  | rsaPssPssSha512
  | sha224Ecdsa
  | sha224Rsa
  | sha224Dsa
  | rsaPkcs1Sha1
  | ecdsaSha1
  | sha256BrainpoolP256r1
  | sha384BrainpoolP384r1
  | sha512BrainpoolP512r1
  | mlDsa44
  | mlDsa65
  | mlDsa87
  deriving DecidableEq, Repr

namespace SignatureScheme

def asU16 : SignatureScheme → Nat
  | rsaPkcs1Sha256 => 0x0401
  | rsaPkcs1Sha384 => 0x0501
  | rsaPkcs1Sha512 => 0x0601
  | ecdsaSecp256r1Sha256 => 0x0403
  | ecdsaSecp384r1Sha384 => 0x0503
  | ecdsaSecp521r1Sha512 => 0x0603
  | rsaPssRsaeSha256 => 0x0804
  | rsaPssRsaeSha384 => 0x0805
  | rsaPssRsaeSha512 => 0x0806
  | ed25519 => 0x0807
  | ed448 => 0x0808
  | rsaPssPssSha256 => 0x0809
  | rsaPssPssSha384 => 0x080a
  | rsaPssPssSha512 => 0x080b
  | sha224Ecdsa => 0x0303
  | sha224Rsa => 0x0301
  | sha224Dsa => 0x0302
  | rsaPkcs1Sha1 => 0x0201
  | ecdsaSha1 => 0x0203
  | sha256BrainpoolP256r1 => 0x081A
  | sha384BrainpoolP384r1 => 0x081B
  | sha512BrainpoolP512r1 => 0x081C
  | mlDsa44 => 0x0904
  | mlDsa65 => 0x0905
  | mlDsa87 => 0x0906

def of : Nat → Option SignatureScheme
  | 0x0401 => some rsaPkcs1Sha256
  | 0x0501 => some rsaPkcs1Sha384
  | 0x0601 => some rsaPkcs1Sha512
  | 0x0403 => some ecdsaSecp256r1Sha256
  | 0x0503 => some ecdsaSecp384r1Sha384
  | 0x0603 => some ecdsaSecp521r1Sha512
  | 0x0804 => some rsaPssRsaeSha256
  | 0x0805 => some rsaPssRsaeSha384
  | 0x0806 => some rsaPssRsaeSha512
  | 0x0807 => some ed25519
  | 0x0808 => some ed448
  | 0x0809 => some rsaPssPssSha256
  | 0x080a => some rsaPssPssSha384
  | 0x080b => some rsaPssPssSha512
  | 0x0303 => some sha224Ecdsa
  | 0x0301 => some sha224Rsa
  | 0x0302 => some sha224Dsa
  | 0x0201 => some rsaPkcs1Sha1
  | 0x0203 => some ecdsaSha1
  | 0x081A => some sha256BrainpoolP256r1
  | 0x081B => some sha384BrainpoolP384r1
  | 0x081C => some sha512BrainpoolP512r1
  | 0x0904 => some mlDsa44
  | 0x0905 => some mlDsa65
  | 0x0906 => some mlDsa87
  | _ => none

def parse : Parser ParseError SignatureScheme := readEnum16 of

end SignatureScheme

structure ServerName where
  name : Bytes
  deriving DecidableEq, Repr

/-- The only name type is `host_name`. -/
def ServerName.parse : Parser ParseError ServerName := do
  let nameType ← readU8
  if nameType ≠ 0 then throw .invalidData
  else do
    let nameLen ← readU16
    let name ← slice nameLen
    if name.buffer.all (· < 128) then pure ⟨name.buffer⟩ else throw .invalidData

structure ServerNameList where
  names : List ServerName
  deriving DecidableEq, Repr

def ServerNameList.parse (N : Nat) : Parser ParseError ServerNameList := do
  let dataLength ← readU16
  return ⟨← readList N dataLength ServerName.parse⟩

structure ServerNameResponse where
  deriving DecidableEq, Repr

def ServerNameResponse.parse : Parser ParseError ServerNameResponse := do
  if (← get).isEmpty then pure ⟨⟩ else throw .invalidData

structure ProtocolVersion where
  code : Nat
  deriving DecidableEq, Repr

def ProtocolVersion.parse : Parser ParseError ProtocolVersion := do
  return ⟨← readU16⟩

def TLS13 : ProtocolVersion := ⟨0x0304⟩

structure SupportedVersionsClientHello where
  versions : List ProtocolVersion
  deriving DecidableEq, Repr

def SupportedVersionsClientHello.parse (N : Nat) :
    Parser ParseError SupportedVersionsClientHello := do
  let dataLength ← readU8
  return ⟨← readList N dataLength.toNat ProtocolVersion.parse⟩

structure SupportedVersionsServerHello where
  selectedVersion : ProtocolVersion
  deriving DecidableEq, Repr

def SupportedVersionsServerHello.parse : Parser ParseError SupportedVersionsServerHello := do
  return ⟨← ProtocolVersion.parse⟩

structure SignatureAlgorithms where
  supportedSignatureAlgorithms : List SignatureScheme
  deriving DecidableEq, Repr

/-- The result of a parser as a value; the cursor moves as the parser moved it. -/
def attempt {ε ε' α : Type} (p : Parser ε α) : Parser ε' (Except ε α) := fun b =>
  match p b with
  | .ok a b' => .ok (.ok a) b'
  | .error e b' => .ok (.error e) b'

/-- Unknown schemes are dropped, and so are schemes past the capacity. -/
def SignatureAlgorithms.step (N : Nat) (acc : List SignatureScheme) :
    Parser ParseError (List SignatureScheme) := do
  match ← attempt SignatureScheme.parse with
  | .ok scheme => pure (if acc.length < N then acc ++ [scheme] else acc)
  | .error .invalidData => pure acc
  | .error e => throw e

def SignatureAlgorithms.parse (N : Nat) : Parser ParseError SignatureAlgorithms := do
  let dataLength ← readU16
  let data ← slice dataLength
  return ⟨← within data (whileNotEmpty (step N) data.remaining [])⟩

structure SignatureAlgorithmsCert where
  supportedSignatureAlgorithms : List SignatureScheme
  deriving DecidableEq, Repr

def SignatureAlgorithmsCert.parse (N : Nat) : Parser ParseError SignatureAlgorithmsCert := do
  let dataLength ← readU16
  return ⟨← readList N dataLength SignatureScheme.parse⟩

structure SupportedGroups where
  supportedGroups : List NamedGroup
  deriving DecidableEq, Repr

def SupportedGroups.parse (N : Nat) : Parser ParseError SupportedGroups := do
  let dataLength ← readU16
  return ⟨← readList N dataLength NamedGroup.parse⟩

structure KeyShareEntry where
  group : NamedGroup
  opaqueBytes : Bytes
  deriving DecidableEq, Repr

def KeyShareEntry.parse : Parser ParseError KeyShareEntry := do
  let group ← NamedGroup.parse
  let opaqueLen ← readU16
  let data ← slice opaqueLen
  return ⟨group, data.buffer⟩

structure KeyShareClientHello where
  clientShares : List KeyShareEntry
  deriving DecidableEq, Repr

def KeyShareClientHello.parse (N : Nat) : Parser ParseError KeyShareClientHello := do
  let len ← readU16
  return ⟨← readList N len KeyShareEntry.parse⟩

structure KeyShareServerHello where
  entry : KeyShareEntry
  deriving DecidableEq, Repr

def KeyShareServerHello.parse : Parser ParseError KeyShareServerHello := do
  return ⟨← KeyShareEntry.parse⟩

inductive PskKeyExchangeMode
  | pskKe
  | pskDheKe
  deriving DecidableEq, Repr

def PskKeyExchangeMode.of : UInt8 → Option PskKeyExchangeMode
  | 0 => some pskKe
  | 1 => some pskDheKe
  | _ => none

def PskKeyExchangeMode.parse : Parser ParseError PskKeyExchangeMode := readEnum8 of

structure PskKeyExchangeModes where
  modes : List PskKeyExchangeMode
  deriving DecidableEq, Repr

def PskKeyExchangeModes.parse (N : Nat) : Parser ParseError PskKeyExchangeModes := do
  let dataLength ← readU8
  return ⟨← readList N dataLength.toNat PskKeyExchangeMode.parse⟩

inductive MaxFragmentLength
  | bits9
  | bits10
  | bits11
  | bits12
  deriving DecidableEq, Repr

def MaxFragmentLength.of : UInt8 → Option MaxFragmentLength
  | 1 => some bits9
  | 2 => some bits10
  | 3 => some bits11
  | 4 => some bits12
  | _ => none

def MaxFragmentLength.parse : Parser ParseError MaxFragmentLength := readEnum8 of

/-- Validated but not stored: the parsed list is always empty. -/
structure AlpnProtocolNameList where
  protocols : List Bytes
  deriving DecidableEq, Repr

def AlpnProtocolNameList.step (_ : Unit) : Parser ParseError Unit := do
  let nameLen ← readU8
  if nameLen = 0 then throw .invalidData
  else do
    let _ ← slice nameLen.toNat
    pure ()

def AlpnProtocolNameList.parse : Parser ParseError AlpnProtocolNameList := do
  let listLen ← readU16
  let listBuf ← slice listLen
  within listBuf (whileNotEmpty step listBuf.remaining ())
  return ⟨[]⟩

structure Unimplemented where
  data : Bytes
  deriving DecidableEq, Repr

def Unimplemented.parse : Parser ParseError Unimplemented := do
  return ⟨(← get).buffer⟩

structure PreSharedKeyClientHello where
  identities : List Bytes
  binders : List Bytes
  hashSize : Nat
  deriving DecidableEq, Repr

namespace PreSharedKeyClientHello

/-- One identity: a length of at least one, the identity, and a ticket age that is skipped. -/
def identityStep (N : Nat) (identities : List Bytes) : Parser ParseError (List Bytes) := do
  let idLen ← readU16
  if idLen < 1 then throw .invalidData
  else do
    let idData ← slice idLen
    let identities ← pushWithin N .insufficientSpace identities idData.buffer
    let _ ← readU32
    return identities

/-- One binder; all binders have the length of the first. -/
def binderStep (N : Nat) (acc : List Bytes × Nat) : Parser ParseError (List Bytes × Nat) := do
  let bLen ← readU8
  if bLen.toNat < 32 then throw .invalidData
  else do
    let bData ← slice bLen.toNat
    let binders ← pushWithin N .insufficientSpace acc.1 bData.buffer
    if acc.2 = 0 then pure (binders, bLen.toNat)
    else if acc.2 ≠ bLen.toNat then throw .invalidData
    else pure (binders, acc.2)

def parse (N : Nat) : Parser ParseError PreSharedKeyClientHello := do
  let identitiesLen ← readU16
  if identitiesLen < 7 then throw .invalidData
  else do
    let idBuf ← slice identitiesLen
    let identities ← within idBuf (whileNotEmpty (identityStep N) idBuf.remaining [])
    if identities.isEmpty then throw .invalidData
    else do
      let bindersTotalLen ← readU16
      if bindersTotalLen < 33 then throw .invalidData
      else do
        let bindBuf ← slice bindersTotalLen
        let (binders, hashSize) ←
          within bindBuf (whileNotEmpty (binderStep N) bindBuf.remaining ([], 0))
        if binders.length ≠ identities.length then throw .invalidData
        else pure ⟨identities, binders, hashSize⟩

end PreSharedKeyClientHello

structure PreSharedKeyServerHello where
  selectedIdentity : Nat
  deriving DecidableEq, Repr

def PreSharedKeyServerHello.parse : Parser ParseError PreSharedKeyServerHello := do
  return ⟨← readU16⟩

/-- The extensions one message may carry, each with the parser of its data. -/
abbrev ExtensionGroup (α : Type) := ExtensionType → Option (Parser ParseError α)

namespace ExtensionGroup

variable {α : Type}

/-- The data is consumed before the type is looked at, so a failed lookup leaves
the cursor after the extension. -/
def parse (group : ExtensionGroup α) : Parser TlsError α := do
  let extensionType ← attempt ExtensionType.parse
  let dataLen ← mapError (fun _ => TlsError.decodeError) readU16
  let extData ← mapError (fun _ => TlsError.decodeError) (slice dataLen)
  match extensionType with
  | .error .invalidData => throw .unknownExtensionType
  | .error _ => throw .decodeError
  | .ok extType =>
      match group extType with
      | some p => within extData (mapError (fun _ => TlsError.decodeError) p)
      | none => throw (fatal .illegalParameter)

def vectorStep (group : ExtensionGroup α) (N : Nat) (acc : List α) :
    Parser TlsError (List α) := do
  match ← attempt group.parse with
  | .ok ext => pushWithin N .decodeError acc ext
  | .error .unknownExtensionType => pure acc
  | .error e => throw e

def parseVector (group : ExtensionGroup α) (N : Nat) : Parser TlsError (List α) := do
  let extensionsLen ← mapError (fun _ => TlsError.invalidExtensionsLength) readU16
  let extBuf ← mapError TlsError.parseError (slice extensionsLen)
  within extBuf (whileNotEmpty (group.vectorStep N) extBuf.remaining [])

end ExtensionGroup

inductive ClientHelloExtension
  | serverName (data : ServerNameList)
  | supportedVersions (data : SupportedVersionsClientHello)
  | signatureAlgorithms (data : SignatureAlgorithms)
  | supportedGroups (data : SupportedGroups)
  | keyShare (data : KeyShareClientHello)
  | preSharedKey (data : PreSharedKeyClientHello)
  | pskKeyExchangeModes (data : PskKeyExchangeModes)
  | signatureAlgorithmsCert (data : SignatureAlgorithmsCert)
  | maxFragmentLength (data : MaxFragmentLength)
  | statusRequest (data : Unimplemented)
  | useSrtp (data : Unimplemented)
  | heartbeat (data : Unimplemented)
  | applicationLayerProtocolNegotiation (data : AlpnProtocolNameList)
  | signedCertificateTimestamp (data : Unimplemented)
  | clientCertificateType (data : Unimplemented)
  | serverCertificateType (data : Unimplemented)
  | padding (data : Unimplemented)
  | earlyData (data : Unimplemented)
  | cookie (data : Unimplemented)
  | certificateAuthorities (data : Unimplemented)
  | oidFilters (data : Unimplemented)
  | postHandshakeAuth (data : Unimplemented)
  deriving DecidableEq, Repr

namespace ClientHelloExtension

def group : ExtensionGroup ClientHelloExtension
  | .serverName => some (return serverName (← ServerNameList.parse 1))
  | .supportedVersions => some (return supportedVersions (← SupportedVersionsClientHello.parse 1))
  | .signatureAlgorithms => some (return signatureAlgorithms (← SignatureAlgorithms.parse 25))
  | .supportedGroups => some (return supportedGroups (← SupportedGroups.parse 13))
  | .keyShare => some (return keyShare (← KeyShareClientHello.parse 4))
  | .preSharedKey => some (return preSharedKey (← PreSharedKeyClientHello.parse 4))
  | .pskKeyExchangeModes => some (return pskKeyExchangeModes (← PskKeyExchangeModes.parse 4))
  | .signatureAlgorithmsCert =>
      some (return signatureAlgorithmsCert (← SignatureAlgorithmsCert.parse 25))
  | .maxFragmentLength => some (return maxFragmentLength (← MaxFragmentLength.parse))
  | .statusRequest => some (return statusRequest (← Unimplemented.parse))
  | .useSrtp => some (return useSrtp (← Unimplemented.parse))
  | .heartbeat => some (return heartbeat (← Unimplemented.parse))
  | .applicationLayerProtocolNegotiation =>
      some (return applicationLayerProtocolNegotiation (← AlpnProtocolNameList.parse))
  | .signedCertificateTimestamp =>
      some (return signedCertificateTimestamp (← Unimplemented.parse))
  | .clientCertificateType => some (return clientCertificateType (← Unimplemented.parse))
  | .serverCertificateType => some (return serverCertificateType (← Unimplemented.parse))
  | .padding => some (return padding (← Unimplemented.parse))
  | .earlyData => some (return earlyData (← Unimplemented.parse))
  | .cookie => some (return cookie (← Unimplemented.parse))
  | .certificateAuthorities => some (return certificateAuthorities (← Unimplemented.parse))
  | .oidFilters => some (return oidFilters (← Unimplemented.parse))
  | .postHandshakeAuth => some (return postHandshakeAuth (← Unimplemented.parse))
  | .compressCertificate => none

end ClientHelloExtension

end GatoPskTls
