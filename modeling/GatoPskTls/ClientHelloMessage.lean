import GatoPskTls.ClientHelloEncode

/-!
# The client's ClientHello

`ClientHello::encode` with the extensions a configuration asks for, and when the length
fields of what it writes are right: lengths are narrowed without a check.
-/
namespace GatoPskTls

open Stateful BigEndian CryptoBuffer

/-- What a ClientHello is made from; the vectors are within their capacity. -/
structure TlsConfig where
  serverName : Option Bytes
  alpnProtocols : Option (List Bytes)
  psk : Option (Bytes × List Bytes)
  signatureSchemes : List SignatureScheme
  namedGroups : List NamedGroup
  maxFragmentLength : Option MaxFragmentLength
  schemes_le : signatureSchemes.length ≤ 25
  groups_le : namedGroups.length ≤ 13
  identities_le : ∀ p ∈ psk, p.2.length ≤ 4

/-- The identities a ClientHello offers. -/
def TlsConfig.identities (config : TlsConfig) : List Bytes := (config.psk.map (·.2)).getD []

/-- Without a PSK there are no identities. -/
theorem TlsConfig.identities_none : ∀ p ∈ (none : Option (Bytes × List Bytes)), p.2.length ≤ 4 := nofun

/-- The key share is the encoded public key of the ephemeral secret, an uncompressed point. -/
structure ClientHello (cs : TlsCipherSuite) where
  config : TlsConfig
  random : GenericArray 32
  publicKey : GenericArray 65

namespace ClientHello

variable {cs : TlsCipherSuite} (hello : ClientHello cs)

/-- `if let Some(..)` around one extension. -/
def encodeIfSome (ext : Option ClientHelloExtension) : CryptoBuffer.M Unit :=
  match ext with
  | some ext => ext.encode
  | none => pure ()

def pskExtension : Option ClientHelloExtension :=
  hello.config.psk.map fun (_, identities) => .preSharedKey ⟨identities, [], cs.hashLen⟩

def encodeExtensions : CryptoBuffer.M Unit := do
  (ClientHelloExtension.supportedVersions ⟨[TLS13]⟩).encode
  (ClientHelloExtension.signatureAlgorithms ⟨hello.config.signatureSchemes⟩).encode
  encodeIfSome (hello.config.maxFragmentLength.map .maxFragmentLength)
  (ClientHelloExtension.supportedGroups ⟨hello.config.namedGroups⟩).encode
  (ClientHelloExtension.pskKeyExchangeModes ⟨[.pskDheKe]⟩).encode
  (ClientHelloExtension.keyShare ⟨[⟨.secp256r1, hello.publicKey.val⟩]⟩).encode
  encodeIfSome (hello.config.serverName.map fun name => .serverName (.single name))
  encodeIfSome (hello.config.alpnProtocols.map fun protocols =>
    .applicationLayerProtocolNegotiation ⟨protocols⟩)
  encodeIfSome hello.pskExtension

def encode : CryptoBuffer.M Unit := do
  orEncodeError (pushU16 0x0303)
  orEncodeError (extendFromSlice hello.random.val)
  -- the session id is empty
  orEncodeError (push 0)
  orEncodeError (pushU16 2)
  orEncodeError (pushU16 cs.codePoint)
  -- one compression method, null
  orEncodeError (push 1)
  orEncodeError (push 0)
  withU16Length hello.encodeExtensions

/-- `ClientHandshake::encode` of a ClientHello. -/
def encodeHandshake : CryptoBuffer.M Unit := do
  orEncodeError (push HandshakeType.clientHello.toU8)
  withU24Length hello.encode

/-- The extensions in the order they are written in. -/
def extensions : List ClientHelloExtension :=
  [ClientHelloExtension.supportedVersions ⟨[TLS13]⟩,
    ClientHelloExtension.signatureAlgorithms ⟨hello.config.signatureSchemes⟩] ++
  ((hello.config.maxFragmentLength.map ClientHelloExtension.maxFragmentLength).toList ++
  ([ClientHelloExtension.supportedGroups ⟨hello.config.namedGroups⟩,
    ClientHelloExtension.pskKeyExchangeModes ⟨[.pskDheKe]⟩,
    ClientHelloExtension.keyShare ⟨[⟨.secp256r1, hello.publicKey.val⟩]⟩] ++
  ((hello.config.serverName.map fun name => ClientHelloExtension.serverName (.single name)).toList ++
  ((hello.config.alpnProtocols.map fun protocols =>
    ClientHelloExtension.applicationLayerProtocolNegotiation ⟨protocols⟩).toList ++
  hello.pskExtension.toList))))

/-- Everything before the extensions. -/
def framedFields : Framed :=
  .bytes (bigEndian 2 0x0303) ++ (.bytes hello.random.val ++ (.block 1 (.bytes []) ++
    (.block 2 (.bytes (bigEndian 2 cs.codePoint)) ++ .block 1 (.bytes [0]))))

def framedExtensions : Framed := .concat (hello.extensions.map ClientHelloExtension.framed)

/-- The whole handshake message. -/
def framed : Framed :=
  .bytes [HandshakeType.clientHello.toU8] ++
    .block 3 (hello.framedFields ++ .block 2 hello.framedExtensions)

theorem appends_encodeIfSome (ext : Option ClientHelloExtension) :
    Appends (encodeIfSome ext) (ext.toList.flatMap fun ext => ext.framed.wire) := by
  cases ext with
  | none => exact .pure_nil
  | some ext =>
      rw [Option.toList_some, List.flatMap_singleton]
      exact ext.appends_encode

theorem appends_encodeExtensions :
    Appends hello.encodeExtensions hello.framedExtensions.wire := by
  have hone : ∀ ext : ClientHelloExtension, Appends ext.encode
      ([ext].flatMap fun ext => ext.framed.wire) := by
    intro ext
    rw [List.flatMap_singleton]
    exact ext.appends_encode
  have key := (hone (.supportedVersions ⟨[TLS13]⟩)).bind <|
    (hone (.signatureAlgorithms ⟨hello.config.signatureSchemes⟩)).bind <|
    (appends_encodeIfSome (hello.config.maxFragmentLength.map .maxFragmentLength)).bind <|
    (hone (.supportedGroups ⟨hello.config.namedGroups⟩)).bind <|
    (hone (.pskKeyExchangeModes ⟨[.pskDheKe]⟩)).bind <|
    (hone (.keyShare ⟨[⟨.secp256r1, hello.publicKey.val⟩]⟩)).bind <|
    (appends_encodeIfSome (hello.config.serverName.map fun name => .serverName (.single name))).bind <|
    (appends_encodeIfSome (hello.config.alpnProtocols.map fun protocols =>
      .applicationLayerProtocolNegotiation ⟨protocols⟩)).bind <|
    appends_encodeIfSome hello.pskExtension
  simp only [← List.flatMap_append] at key
  rw [framedExtensions, Framed.concat_map_wire]
  exact key

theorem appends_encodeHandshake : Appends hello.encodeHandshake hello.framed.wire := by
  have hbody : Appends hello.encode
      (hello.framedFields ++ Framed.block 2 hello.framedExtensions).wire := by
    have hwire : (hello.framedFields ++ Framed.block 2 hello.framedExtensions).wire =
        bigEndian 2 0x0303 ++ (hello.random.val ++ ([0] ++ (bigEndian 2 2 ++
          (bigEndian 2 cs.codePoint ++ ([1] ++ ([0] ++ sized 2 hello.framedExtensions.wire)))))) := by
      simp [framedFields, sized, bigEndian]
    rw [hwire]
    exact (appends_pushU16 0x0303).bind <| ((appends_extendFromSlice _).mapError _).bind <|
      (appends_pushByte 0).bind <| (appends_pushU16 2).bind <| (appends_pushU16 cs.codePoint).bind <|
      (appends_pushByte 1).bind <| (appends_pushByte 0).bind <|
      appends_withU16Length hello.appends_encodeExtensions
  exact (appends_pushByte _).bind (appends_withU24Length hbody)

/-- The size of the extensions, from the configuration alone. -/
def extensionsLength : Nat :=
  7 + (6 + 2 * hello.config.signatureSchemes.length) +
    (hello.config.maxFragmentLength.elim 0 fun _ => 5) +
    (6 + 2 * hello.config.namedGroups.length) + 6 + 75 +
    (hello.config.serverName.elim 0 fun name => 9 + name.length) +
    (hello.config.alpnProtocols.elim 0 fun protocols =>
      6 + (protocols.map fun protocol => 1 + protocol.length).sum) +
    hello.config.psk.elim 0 fun (_, identities) =>
      8 + (identities.map fun identity => 6 + identity.length).sum +
        (1 + cs.hashLen) * identities.length

/-- What an extension that is there only for some configurations adds. -/
theorem optional_length {α : Type} (x : Option α) (ext : α → ClientHelloExtension) :
    ((x.map ext).toList.flatMap fun ext => ext.framed.wire).length =
      x.elim 0 fun a => 4 + (ext a).framedData.wire.length := by
  cases x <;> simp [ClientHelloExtension.framed]
  omega

theorem framedExtensions_length : hello.framedExtensions.wire.length = hello.extensionsLength := by
  have hversions : (ClientHelloExtension.supportedVersions ⟨[TLS13]⟩).framed.wire.length = 7 := rfl
  have hmodes : (ClientHelloExtension.pskKeyExchangeModes ⟨[.pskDheKe]⟩).framed.wire.length = 6 := rfl
  have hschemes : (ClientHelloExtension.signatureAlgorithms
      ⟨hello.config.signatureSchemes⟩).framed.wire.length =
      6 + 2 * hello.config.signatureSchemes.length := by
    simp [ClientHelloExtension.framed, ClientHelloExtension.framedData, SignatureAlgorithms.framed]
    omega
  have hgroups : (ClientHelloExtension.supportedGroups
      ⟨hello.config.namedGroups⟩).framed.wire.length = 6 + 2 * hello.config.namedGroups.length := by
    simp [ClientHelloExtension.framed, ClientHelloExtension.framedData, SupportedGroups.framed]
    omega
  have hshare : (ClientHelloExtension.keyShare
      ⟨[⟨.secp256r1, hello.publicKey.val⟩]⟩).framed.wire.length = 75 := by
    simp [ClientHelloExtension.framed, ClientHelloExtension.framedData, KeyShareClientHello.framed,
      KeyShareEntry.framed, hello.publicKey.property]
  have hname : ∀ name, 4 + (ClientHelloExtension.serverName (.single name)).framedData.wire.length =
      9 + name.length := by
    intro name
    simp [ClientHelloExtension.framedData, ServerNameList.framed, ServerNameList.single,
      ServerName.framed]
    omega
  have halpn : ∀ protocols, 4 + (ClientHelloExtension.applicationLayerProtocolNegotiation
      ⟨protocols⟩).framedData.wire.length =
      6 + (protocols.map fun protocol => 1 + protocol.length).sum := by
    intro protocols
    simp [ClientHelloExtension.framedData, AlpnProtocolNameList.framed]
    omega
  have hpsk : ∀ identities : List Bytes, 4 + (ClientHelloExtension.preSharedKey
      ⟨identities, [], cs.hashLen⟩).framedData.wire.length =
      8 + (identities.map fun identity => 6 + identity.length).sum +
        (1 + cs.hashLen) * identities.length := by
    intro identities
    simp [ClientHelloExtension.framedData, PreSharedKeyClientHello.framed,
      PreSharedKeyClientHello.framedIdentity]
    omega
  rw [framedExtensions, Framed.concat_map_wire, extensions, extensionsLength, pskExtension]
  simp only [List.flatMap_append, List.length_append, List.flatMap_cons, List.flatMap_nil,
    List.length_nil, optional_length, hversions, hmodes, hschemes, hgroups, hshare, hname, halpn, hpsk]
  have hfragment : ∀ l : MaxFragmentLength,
      4 + (ClientHelloExtension.maxFragmentLength l).framedData.wire.length = 5 := fun _ => rfl
  simp only [hfragment]
  omega

end ClientHello

/-- What stands behind a length field of one byte fits it. -/
def ClientHelloExtension.NarrowFits : ClientHelloExtension → Prop
  | supportedVersions data => 2 * data.versions.length ≤ 255
  | pskKeyExchangeModes data => data.modes.length ≤ 255
  | applicationLayerProtocolNegotiation data => ∀ protocol ∈ data.protocols, protocol.length ≤ 255
  | _ => True

/-- In an extension that fits a two-byte length only the one-byte lengths can be wrong. -/
theorem ClientHelloExtension.framed_exact_iff {ext : ClientHelloExtension}
    (h : ext.framed.wire.length < 256 ^ 2) : ext.framed.Exact ↔ ext.NarrowFits := by
  have hdata : ext.framedData.wire.length < 256 ^ 2 := by
    simp only [framed, Framed.append_wire, Framed.bytes_wire, Framed.block_wire,
      List.length_append, bigEndian_length, sized_length] at h
    omega
  have hframed : ext.framed.Exact ↔ ext.framedData.Exact := by
    rw [framed, Framed.exact_append, Framed.exact_block, and_iff_right (Framed.exact_bytes _),
      and_iff_right hdata]
  have hbytes : ∀ w : Bytes, (Framed.bytes w).Exact ↔ True := fun w =>
    iff_true_intro (Framed.exact_bytes w)
  have hopaque : ∀ (w name : Bytes), (Framed.bytes w ++ Framed.block 2 (.bytes name)).wire.length <
      256 ^ 2 → ((Framed.bytes w ++ Framed.block 2 (.bytes name)).Exact ↔ True) := by
    intro w name hlen
    simp only [Framed.append_wire, Framed.bytes_wire, Framed.block_wire, List.length_append,
      sized_length] at hlen
    rw [Framed.exact_append, Framed.exact_block, Framed.bytes_wire, hbytes, hbytes]
    exact iff_true_intro ⟨trivial, by omega, trivial⟩
  rw [hframed]
  cases ext with
  | serverName data =>
      rw [framedData, ServerNameList.framed, Framed.exact_block_list data.names hdata
        fun name => hopaque _ _]
      simp [NarrowFits]
  | keyShare data =>
      rw [framedData, KeyShareClientHello.framed, Framed.exact_block_list data.clientShares hdata
        fun entry => hopaque _ _]
      simp [NarrowFits]
  | signatureAlgorithms data =>
      rw [framedData, SignatureAlgorithms.framed, Framed.exact_block_list _ hdata
        fun _ _ => hbytes _]
      simp [NarrowFits]
  | signatureAlgorithmsCert data =>
      rw [framedData, SignatureAlgorithmsCert.framed, Framed.exact_block_list _ hdata
        fun _ _ => hbytes _]
      simp [NarrowFits]
  | supportedGroups data =>
      rw [framedData, SupportedGroups.framed, Framed.exact_block_list _ hdata
        fun _ _ => hbytes _]
      simp [NarrowFits]
  | supportedVersions data =>
      simp [framedData, SupportedVersionsClientHello.framed, NarrowFits]
      omega
  | pskKeyExchangeModes data =>
      simp [framedData, PskKeyExchangeModes.framed, NarrowFits]
      omega
  | applicationLayerProtocolNegotiation data =>
      rw [framedData, AlpnProtocolNameList.framed,
        @Framed.exact_block_list _ _ _ (fun protocol : Bytes => protocol.length ≤ 255) _ hdata]
      · rfl
      · intro protocol _
        rw [Framed.exact_block, Framed.bytes_wire, hbytes, and_true]
        omega
  | preSharedKey data =>
      simp only [framedData, PreSharedKeyClientHello.framed, Framed.append_wire,
        List.length_append] at hdata
      have hbinders := hdata
      rw [Framed.block_wire _ (.bytes _), sized_length] at hbinders
      rw [framedData, PreSharedKeyClientHello.framed, Framed.exact_append,
        @Framed.exact_block_list _ _ _ (fun _ : Bytes => True) data.identities (by omega),
        Framed.exact_block, hbytes]
      · exact iff_true_intro ⟨fun _ _ => trivial, by omega, trivial⟩
      · intro identity hlen
        rw [PreSharedKeyClientHello.framedIdentity, Framed.append_wire, Framed.block_wire,
          List.length_append, sized_length] at hlen
        rw [PreSharedKeyClientHello.framedIdentity, Framed.exact_append, Framed.exact_block, hbytes,
          hbytes]
        exact iff_true_intro ⟨⟨by omega, trivial⟩, trivial⟩
  | maxFragmentLength data => exact hbytes _
  | _ data => exact hbytes data.data

namespace ClientHello

variable {cs : TlsCipherSuite} (hello : ClientHello cs)

theorem framed_exact_iff :
    hello.framed.Exact ↔
      (∀ ext ∈ hello.extensions, ext.NarrowFits) ∧ hello.extensionsLength < 256 ^ 2 := by
  have hbody : (hello.framedFields ++ Framed.block 2 hello.framedExtensions).wire.length =
      43 + hello.extensionsLength := by
    simp [framedFields, hello.framedExtensions_length, hello.random.property]
    omega
  have hfields : hello.framedFields.Exact := by
    simp [framedFields]
  rw [framed, Framed.exact_append, Framed.exact_block, hbody, Framed.exact_append,
    Framed.exact_block, hello.framedExtensions_length, framedExtensions, Framed.exact_concat_map]
  constructor
  · rintro ⟨-, -, -, hlen, hexact⟩
    refine ⟨fun ext hext => ?_, hlen⟩
    have := @length_le_flatMap _ (fun ext => ext.framed.wire) _ _ hext
    rw [← Framed.concat_map_wire, ← framedExtensions, framedExtensions_length] at this
    exact (ClientHelloExtension.framed_exact_iff (by omega)).mp (hexact ext hext)
  · rintro ⟨hnarrow, hlen⟩
    refine ⟨Framed.exact_bytes _, by omega, hfields, hlen, fun ext hext => ?_⟩
    have := @length_le_flatMap _ (fun ext => ext.framed.wire) _ _ hext
    rw [← Framed.concat_map_wire, ← framedExtensions, framedExtensions_length] at this
    exact (ClientHelloExtension.framed_exact_iff (by omega)).mpr (hnarrow ext hext)

theorem narrowFits_iff :
    (∀ ext ∈ hello.extensions, ext.NarrowFits) ↔
      ∀ protocols ∈ hello.config.alpnProtocols, ∀ protocol ∈ protocols, protocol.length ≤ 255 := by
  have hoptional : ∀ {α : Type} (x : Option α) (ext : α → ClientHelloExtension),
      (∀ e ∈ (x.map ext).toList, e.NarrowFits) ↔ ∀ a ∈ x, (ext a).NarrowFits := by
    intro α x ext
    cases x <;> simp
  rw [extensions, pskExtension]
  simp only [List.forall_mem_append, List.forall_mem_cons, hoptional]
  simp [ClientHelloExtension.NarrowFits]

theorem framed_length : hello.framed.wire.length = 47 + hello.extensionsLength := by
  simp [framed, framedFields, hello.framedExtensions_length, hello.random.property]
  omega

/-- A ClientHello that was written has every length field right, exactly when there was no
room for it, or no ALPN name needs more than a byte and the extensions no more than two. -/
theorem lengths_exact_iff {b : CryptoBuffer} (hb : b.WF) :
    (∀ b', hello.encodeHandshake b = .ok () b' →
      ∀ p ∈ hello.framed.lengths, p.Exact (b'.asSlice.drop b.len)) ↔
    (b.space < 47 + hello.extensionsLength ∨
      ((∀ protocols ∈ hello.config.alpnProtocols, ∀ protocol ∈ protocols, protocol.length ≤ 255) ∧
        hello.extensionsLength ≤ 65535)) := by
  have hexact := hello.framed_exact_iff
  rw [hello.narrowFits_iff] at hexact
  by_cases hroom : 47 + hello.extensionsLength ≤ b.space
  · have hok : hello.encodeHandshake b = .ok () (b.appended hello.framed.wire) :=
      hello.appends_encodeHandshake.ok hb (by rw [framed_length]; exact hroom)
    have hwritten : (∀ b', hello.encodeHandshake b = .ok () b' →
        ∀ p ∈ hello.framed.lengths, p.Exact (b'.asSlice.drop b.len)) ↔ hello.framed.Exact := by
      constructor
      · intro h
        have := h _ hok
        rwa [appended_asSlice_drop hb] at this
      · intro h b' hb'
        rw [hok] at hb'
        cases hb'
        rw [appended_asSlice_drop hb]
        exact h
    rw [hwritten, hexact, or_iff_right (by omega)]
    exact and_congr_right' ⟨Nat.le_of_lt_succ, Nat.lt_succ_of_le⟩
  · refine iff_of_true ?_ (.inl (by omega))
    intro b' hb'
    have := (hello.appends_encodeHandshake.of_ok hb hb').1
    rw [framed_length, sink_room] at this
    omega

/-- A ClientHello that asks for the ALPN names given, and for nothing else. -/
def ofProtocols (cs : TlsCipherSuite) (protocols : List Bytes) : ClientHello cs where
  config := ⟨none, some protocols, none, [], [], none, by simp, by simp, TlsConfig.identities_none⟩
  random := ⟨List.replicate 32 7, by simp⟩
  publicKey := ⟨List.replicate 65 4, by simp⟩

theorem ofProtocols_room {protocol : Bytes} (h : protocol.length ≤ 300) :
    47 + (ofProtocols cs [protocol]).extensionsLength ≤
      (CryptoBuffer.wrap (List.replicate 512 0)).space := by
  simp only [extensionsLength, ofProtocols, List.length_nil, Option.elim_some, Option.elim_none,
    List.map_cons, List.map_nil, List.sum_cons, List.sum_nil]
  simp only [CryptoBuffer.space, CryptoBuffer.capacity, CryptoBuffer.wrap, List.length_replicate]
  omega

/-- The length of an ALPN name of 256 bytes is written as zero. -/
theorem longProtocol_length_lost :
    let hello := ofProtocols .aes128GcmSha256 [List.replicate 256 97]
    let b := CryptoBuffer.wrap (List.replicate 512 0)
    ∃ b', hello.encodeHandshake b = .ok () b' ∧
      ¬ ∀ p ∈ hello.framed.lengths, p.Exact (b'.asSlice.drop b.len) := by
  intro hello b
  have hb : b.WF := Nat.zero_le _
  have hroom : 47 + hello.extensionsLength ≤ b.space := ofProtocols_room (by rw [List.length_replicate]; decide)
  refine ⟨_, hello.appends_encodeHandshake.ok hb (by rw [framed_length]; exact hroom), ?_⟩
  rw [sink_put, appended_asSlice_drop hb]
  intro hexact
  have hnarrow := hello.narrowFits_iff.mp (hello.framed_exact_iff.mp hexact).1
  have := hnarrow [List.replicate 256 97] rfl _ (List.mem_singleton_self _)
  rw [List.length_replicate] at this
  omega

theorem shortProtocol_lengths_exact :
    let hello := ofProtocols .aes128GcmSha256 [List.replicate 8 97]
    let b := CryptoBuffer.wrap (List.replicate 512 0)
    (∃ b', hello.encodeHandshake b = .ok () b') ∧
    ∀ b', hello.encodeHandshake b = .ok () b' →
      ∀ p ∈ hello.framed.lengths, p.Exact (b'.asSlice.drop b.len) := by
  intro hello b
  have hb : b.WF := Nat.zero_le _
  have hroom : 47 + hello.extensionsLength ≤ b.space := ofProtocols_room (by rw [List.length_replicate]; decide)
  refine ⟨⟨_, hello.appends_encodeHandshake.ok hb (by rw [framed_length]; exact hroom)⟩, ?_⟩
  refine (hello.lengths_exact_iff hb).mpr (.inr ⟨?_, by decide⟩)
  rintro protocols ⟨⟩ protocol hprotocol
  rw [List.mem_singleton.mp hprotocol]
  simp

end ClientHello

end GatoPskTls
