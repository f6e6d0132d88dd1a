import GatoPskTls.ServerHello
import GatoPskTls.Lib.Framing

/-!
# Encoding a ClientHello

The extension encoders of the client and `ClientHello::encode`. Each encoder comes with
what it writes, as bytes framed by their length fields.
-/
namespace GatoPskTls

open Stateful BigEndian CryptoBuffer

def ServerName.encode (name : ServerName) : CryptoBuffer.M Unit := do
  orEncodeError (push 0)
  orEncodeError (withU16Length (extendFromSlice name.name))

def ServerName.framed (name : ServerName) : Framed := .bytes [0] ++ .block 2 (.bytes name.name)

def ServerNameList.encode (list : ServerNameList) : CryptoBuffer.M Unit :=
  withU16Length (list.names.forM ServerName.encode)

def ServerNameList.single (serverName : Bytes) : ServerNameList := ⟨[⟨serverName⟩]⟩

def ServerNameList.framed (list : ServerNameList) : Framed :=
  .block 2 (.concat (list.names.map ServerName.framed))

def ProtocolVersion.encode (version : ProtocolVersion) : CryptoBuffer.M Unit :=
  orEncodeError (pushU16 version.code)

def SupportedVersionsClientHello.encode (list : SupportedVersionsClientHello) :
    CryptoBuffer.M Unit := withU8Length (list.versions.forM ProtocolVersion.encode)

def SupportedVersionsClientHello.framed (list : SupportedVersionsClientHello) : Framed :=
  .block 1 (.concat (list.versions.map fun v => .bytes (bigEndian 2 v.code)))

def SignatureAlgorithms.encode (list : SignatureAlgorithms) : CryptoBuffer.M Unit :=
  withU16Length (list.supportedSignatureAlgorithms.forM fun a => orEncodeError (pushU16 a.asU16))

def SignatureAlgorithms.framed (list : SignatureAlgorithms) : Framed :=
  .block 2 (.concat (list.supportedSignatureAlgorithms.map fun a => .bytes (bigEndian 2 a.asU16)))

def SignatureAlgorithmsCert.encode (list : SignatureAlgorithmsCert) : CryptoBuffer.M Unit :=
  withU16Length (list.supportedSignatureAlgorithms.forM fun a => orEncodeError (pushU16 a.asU16))

def SignatureAlgorithmsCert.framed (list : SignatureAlgorithmsCert) : Framed :=
  .block 2 (.concat (list.supportedSignatureAlgorithms.map fun a => .bytes (bigEndian 2 a.asU16)))

def NamedGroup.encode (group : NamedGroup) : CryptoBuffer.M Unit :=
  orEncodeError (pushU16 group.asU16)

def SupportedGroups.encode (list : SupportedGroups) : CryptoBuffer.M Unit :=
  withU16Length (list.supportedGroups.forM NamedGroup.encode)

def SupportedGroups.framed (list : SupportedGroups) : Framed :=
  .block 2 (.concat (list.supportedGroups.map fun g => .bytes (bigEndian 2 g.asU16)))

def KeyShareEntry.encode (entry : KeyShareEntry) : CryptoBuffer.M Unit := do
  entry.group.encode
  orEncodeError (withU16Length (extendFromSlice entry.opaqueBytes))

def KeyShareEntry.framed (entry : KeyShareEntry) : Framed :=
  .bytes (bigEndian 2 entry.group.asU16) ++ .block 2 (.bytes entry.opaqueBytes)

def KeyShareClientHello.encode (list : KeyShareClientHello) : CryptoBuffer.M Unit :=
  withU16Length (list.clientShares.forM KeyShareEntry.encode)

def KeyShareClientHello.framed (list : KeyShareClientHello) : Framed :=
  .block 2 (.concat (list.clientShares.map KeyShareEntry.framed))

def PskKeyExchangeMode.toU8 : PskKeyExchangeMode → UInt8
  | pskKe => 0
  | pskDheKe => 1

def PskKeyExchangeMode.encode (mode : PskKeyExchangeMode) : CryptoBuffer.M Unit :=
  orEncodeError (push mode.toU8)

def PskKeyExchangeModes.encode (list : PskKeyExchangeModes) : CryptoBuffer.M Unit :=
  withU8Length (list.modes.forM PskKeyExchangeMode.encode)

def PskKeyExchangeModes.framed (list : PskKeyExchangeModes) : Framed :=
  .block 1 (.concat (list.modes.map fun m => .bytes [m.toU8]))

def MaxFragmentLength.toU8 : MaxFragmentLength → UInt8
  | bits9 => 1
  | bits10 => 2
  | bits11 => 3
  | bits12 => 4

def MaxFragmentLength.encode (length : MaxFragmentLength) : CryptoBuffer.M Unit :=
  orEncodeError (push length.toU8)

/-- Each name behind the low byte of its length. -/
def AlpnProtocolNameList.encode (list : AlpnProtocolNameList) : CryptoBuffer.M Unit :=
  withU16Length (list.protocols.forM fun protocol => do
    orEncodeError (push (UInt8.ofNat protocol.length))
    extendFromSlice protocol)

def AlpnProtocolNameList.framed (list : AlpnProtocolNameList) : Framed :=
  .block 2 (.concat (list.protocols.map fun protocol => .block 1 (.bytes protocol)))

def Unimplemented.encode (ext : Unimplemented) : CryptoBuffer.M Unit := extendFromSlice ext.data

namespace PreSharedKeyClientHello

def encodeIdentity (identity : Bytes) : CryptoBuffer.M Unit := do
  orEncodeError (withU16Length (extendFromSlice identity))
  -- no ticket age
  orEncodeError (pushU32 0)

/-- The binders are zeros until the transcript is known. -/
def encode (psk : PreSharedKeyClientHello) : CryptoBuffer.M Unit := do
  orEncodeError (withU16Length (psk.identities.forM encodeIdentity))
  let bindersLen := (1 + psk.hashSize) * psk.identities.length
  orEncodeError (pushU16 bindersLen)
  (List.range bindersLen).forM fun _ => orEncodeError (push 0)

def framedIdentity (identity : Bytes) : Framed :=
  .block 2 (.bytes identity) ++ .bytes (bigEndian 4 0)

def framed (psk : PreSharedKeyClientHello) : Framed :=
  .block 2 (.concat (psk.identities.map framedIdentity)) ++
    .block 2 (.bytes (List.replicate ((1 + psk.hashSize) * psk.identities.length) 0))

end PreSharedKeyClientHello

namespace ClientHelloExtension

def extensionType : ClientHelloExtension → ExtensionType
  | serverName _ => .serverName
  | supportedVersions _ => .supportedVersions
  | signatureAlgorithms _ => .signatureAlgorithms
  | supportedGroups _ => .supportedGroups
  | keyShare _ => .keyShare
  | preSharedKey _ => .preSharedKey
  | pskKeyExchangeModes _ => .pskKeyExchangeModes
  | signatureAlgorithmsCert _ => .signatureAlgorithmsCert
  | maxFragmentLength _ => .maxFragmentLength
  | statusRequest _ => .statusRequest
  | useSrtp _ => .useSrtp
  | heartbeat _ => .heartbeat
  | applicationLayerProtocolNegotiation _ => .applicationLayerProtocolNegotiation
  | signedCertificateTimestamp _ => .signedCertificateTimestamp
  | clientCertificateType _ => .clientCertificateType
  | serverCertificateType _ => .serverCertificateType
  | padding _ => .padding
  | earlyData _ => .earlyData
  | cookie _ => .cookie
  | certificateAuthorities _ => .certificateAuthorities
  | oidFilters _ => .oidFilters
  | postHandshakeAuth _ => .postHandshakeAuth

def encodeData : ClientHelloExtension → CryptoBuffer.M Unit
  | serverName data => data.encode
  | supportedVersions data => data.encode
  | signatureAlgorithms data => data.encode
  | supportedGroups data => data.encode
  | keyShare data => data.encode
  | preSharedKey data => data.encode
  | pskKeyExchangeModes data => data.encode
  | signatureAlgorithmsCert data => data.encode
  | maxFragmentLength data => data.encode
  | applicationLayerProtocolNegotiation data => data.encode
  | statusRequest data | useSrtp data | heartbeat data | signedCertificateTimestamp data
  | clientCertificateType data | serverCertificateType data | padding data | earlyData data
  | cookie data | certificateAuthorities data | oidFilters data | postHandshakeAuth data =>
      data.encode

def encode (ext : ClientHelloExtension) : CryptoBuffer.M Unit := do
  orEncodeError (pushU16 ext.extensionType.toU16)
  withU16Length ext.encodeData

def framedData : ClientHelloExtension → Framed
  | serverName data => data.framed
  | supportedVersions data => data.framed
  | signatureAlgorithms data => data.framed
  | supportedGroups data => data.framed
  | keyShare data => data.framed
  | preSharedKey data => data.framed
  | pskKeyExchangeModes data => data.framed
  | signatureAlgorithmsCert data => data.framed
  | maxFragmentLength data => .bytes [data.toU8]
  | applicationLayerProtocolNegotiation data => data.framed
  | statusRequest data | useSrtp data | heartbeat data | signedCertificateTimestamp data
  | clientCertificateType data | serverCertificateType data | padding data | earlyData data
  | cookie data | certificateAuthorities data | oidFilters data | postHandshakeAuth data =>
      .bytes data.data

def framed (ext : ClientHelloExtension) : Framed :=
  .bytes (bigEndian 2 ext.extensionType.toU16) ++ .block 2 ext.framedData

end ClientHelloExtension

section Appends

theorem appends_pushU16 (n : Nat) : Appends (orEncodeError (pushU16 n)) (bigEndian 2 n) :=
  (appends_extendFromSlice _).mapError _

theorem appends_pushByte (byte : UInt8) : Appends (orEncodeError (push byte)) [byte] :=
  (appends_push byte).mapError _

/-- The same encoder for each element, between a two-byte length and the end. -/
theorem appends_list16 {α : Type} {enc : α → CryptoBuffer.M Unit} {framed : α → Framed}
    (xs : List α) (h : ∀ x, Appends (enc x) (framed x).wire) :
    Appends (withU16Length (xs.forM enc)) (Framed.block 2 (.concat (xs.map framed))).wire := by
  rw [Framed.block_wire, Framed.concat_map_wire]
  exact appends_withU16Length (.forM xs fun x _ => h x)

theorem appends_list8 {α : Type} {enc : α → CryptoBuffer.M Unit} {framed : α → Framed}
    (xs : List α) (h : ∀ x, Appends (enc x) (framed x).wire) :
    Appends (withU8Length (xs.forM enc)) (Framed.block 1 (.concat (xs.map framed))).wire := by
  rw [Framed.block_wire, Framed.concat_map_wire]
  exact appends_withU8Length (.forM xs fun x _ => h x)

theorem appends_opaque16 (w : Bytes) :
    Appends (orEncodeError (withU16Length (extendFromSlice w))) (sized 2 w) :=
  (appends_withU16Length (appends_extendFromSlice w)).mapError _

theorem PreSharedKeyClientHello.appends_encodeIdentity (identity : Bytes) :
    Appends (encodeIdentity identity) (framedIdentity identity).wire :=
  (appends_opaque16 identity).bind ((appends_extendFromSlice _).mapError _)

theorem PreSharedKeyClientHello.appends_encode (psk : PreSharedKeyClientHello) :
    Appends psk.encode psk.framed.wire := by
  have hzeros : ∀ n, Appends ((List.range n).forM fun _ => orEncodeError (push 0))
      (List.replicate n 0) := by
    intro n
    have := Sink.Appends.forM (List.range n) fun _ _ => appends_pushByte 0
    rwa [show ((List.range n).flatMap fun _ => [(0 : UInt8)]) = List.replicate n 0 by
      rw [← List.map_eq_flatMap, List.map_const', List.length_range]] at this
  have hids := (appends_list16 psk.identities appends_encodeIdentity).mapError
    fun _ => TlsError.encodeError
  refine hids.bind ?_
  rw [Framed.block_wire, Framed.bytes_wire, sized, List.length_replicate]
  exact (appends_pushU16 _).bind (hzeros _)

theorem ClientHelloExtension.appends_encodeData (ext : ClientHelloExtension) :
    Appends ext.encodeData ext.framedData.wire := by
  cases ext with
  | serverName data =>
      exact appends_list16 data.names fun name => (appends_pushByte 0).bind (appends_opaque16 _)
  | supportedVersions data => exact appends_list8 data.versions fun v => appends_pushU16 v.code
  | signatureAlgorithms data => exact appends_list16 _ fun a => appends_pushU16 a.asU16
  | supportedGroups data => exact appends_list16 data.supportedGroups fun g => appends_pushU16 g.asU16
  | keyShare data =>
      exact appends_list16 data.clientShares fun e => (appends_pushU16 _).bind (appends_opaque16 _)
  | preSharedKey data => exact data.appends_encode
  | pskKeyExchangeModes data => exact appends_list8 data.modes fun m => appends_pushByte m.toU8
  | signatureAlgorithmsCert data => exact appends_list16 _ fun a => appends_pushU16 a.asU16
  | maxFragmentLength data => exact appends_pushByte data.toU8
  | applicationLayerProtocolNegotiation data =>
      refine appends_list16 data.protocols fun protocol => ?_
      have := (appends_pushByte (UInt8.ofNat protocol.length)).bind (appends_extendFromSlice protocol)
      simpa [sized, bigEndian] using this
  | _ data => exact appends_extendFromSlice _

theorem ClientHelloExtension.appends_encode (ext : ClientHelloExtension) :
    Appends ext.encode ext.framed.wire :=
  (appends_pushU16 _).bind (appends_withU16Length ext.appends_encodeData)

end Appends

end GatoPskTls
