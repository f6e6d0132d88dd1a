import GatoPskTls.ClientHelloEncode
import GatoPskTls.ServerHelloWire

/-!
# Extensions: what the encoders write, the parsers read

The code point tables agree, each list is read back as it was written, and so is a whole
vector of extensions. The parsed form of ALPN is always empty and the binders of a
pre_shared_key are written later; these two are left out.
-/
namespace GatoPskTls

open Stateful BigEndian ParseBuffer CryptoBuffer

theorem SignatureScheme.of_asU16 (s : SignatureScheme) : SignatureScheme.of s.asU16 = some s := by
  cases s <;> rfl

theorem SignatureScheme.asU16_lt (s : SignatureScheme) : s.asU16 < 256 ^ 2 := by
  cases s <;> decide

theorem PskKeyExchangeMode.of_toU8 (m : PskKeyExchangeMode) : PskKeyExchangeMode.of m.toU8 = some m := by
  cases m <;> rfl

theorem MaxFragmentLength.of_toU8 (l : MaxFragmentLength) : MaxFragmentLength.of l.toU8 = some l := by
  cases l <;> rfl

theorem ServerName.takes_parse {name : Bytes} (hascii : name.all (· < 128) = true)
    (hlen : name.length < 256 ^ 2) : Takes ServerName.parse ([0] ++ sized 2 name) (.ok ⟨name⟩) := by
  rw [ServerName.parse]
  apply (takes_readU8 0).bind
  rw [if_neg (by decide), sized]
  apply (takes_readU16 hlen).bind
  apply (takes_slice rfl).bind_last
  rw [new_buffer, if_pos hascii]
  exact .pure _

namespace ClientHelloExtension

/-- What the types of the source hold: vectors within their capacity, two-byte numbers and
ASCII names. ALPN and pre_shared_key are not read back. -/
def ReadBack : ClientHelloExtension → Prop
  | serverName data => data.names.length ≤ 1 ∧ ∀ n ∈ data.names, n.name.all (· < 128) = true
  | supportedVersions data => data.versions.length ≤ 1 ∧ ∀ v ∈ data.versions, v.code < 256 ^ 2
  | signatureAlgorithms data => data.supportedSignatureAlgorithms.length ≤ 25
  | supportedGroups data => data.supportedGroups.length ≤ 13
  | keyShare data => data.clientShares.length ≤ 4
  | pskKeyExchangeModes data => data.modes.length ≤ 4
  | signatureAlgorithmsCert data => data.supportedSignatureAlgorithms.length ≤ 25
  | preSharedKey _ => False
  | applicationLayerProtocolNegotiation _ => False
  | _ => True

def raw (ext : ClientHelloExtension) : RawExtension :=
  ⟨ext.extensionType.toU16, ext.framedData.wire⟩

end ClientHelloExtension

/-- A list whose entries all stand for themselves, and fit the vector, is its content. -/
theorem foldlM_gather_self {α : Type} {N : Nat} {of : α → Except ParseError α} {xs : List α}
    (hof : ∀ x ∈ xs, of x = .ok x) (hN : xs.length ≤ N) :
    xs.foldlM (gather N of) [] = .ok xs := by
  have key := @foldlM_gather_ok _ _ N of id xs hof [] (by simpa using hN)
  rwa [List.nil_append, List.map_id] at key

section Lists

variable {N : Nat}

theorem ServerNameList.reads_back {list : ServerNameList} (hN : list.names.length ≤ N)
    (hascii : ∀ n ∈ list.names, n.name.all (· < 128) = true)
    (hlen : list.framed.wire.length < 256 ^ 2) :
    Takes (ServerNameList.parse N) list.framed.wire (.ok list) := by
  have hwire : list.framed.wire = sized 2 (list.names.flatMap fun n => [0] ++ sized 2 n.name) := by
    rw [framed, Framed.block_wire, Framed.concat_map_wire]
    rfl
  rw [hwire, sized_length] at hlen
  have hnames : ∀ n ∈ list.names, n.name.length < 256 ^ 2 := by
    intro n hn
    have := @length_le_flatMap _ (fun n : ServerName => [0] ++ sized 2 n.name) _ _ hn
    simp only [List.length_append, List.length_singleton, sized_length] at this
    omega
  have htakes := @takes_list16 _ _ _ ServerName.parse (fun n => .ok n)
    (fun n : ServerName => [0] ++ sized 2 n.name) list.names mk N (fun _ _ => by simp)
    (fun n hn => ServerName.takes_parse (hascii n hn) (hnames n hn)) (by omega)
  rw [foldlM_gather_self (fun _ _ => rfl) hN] at htakes
  rw [hwire]
  exact htakes

theorem SupportedVersionsClientHello.reads_back {list : SupportedVersionsClientHello}
    (hN : list.versions.length ≤ N) (hcodes : ∀ v ∈ list.versions, v.code < 256 ^ 2)
    (hlen : (list.versions.flatMap fun v => bigEndian 2 v.code).length < 256 ^ 1) :
    Takes (SupportedVersionsClientHello.parse N) list.framed.wire (.ok list) := by
  have htakes := SupportedVersionsClientHello.takes_parse (N := N) ProtocolVersion.code hcodes hlen
  rw [foldlM_gather_self (fun _ _ => rfl) hN] at htakes
  rw [framed, Framed.block_wire, Framed.concat_map_wire]
  exact htakes

theorem SignatureAlgorithms.reads_back {list : SignatureAlgorithms}
    (hN : list.supportedSignatureAlgorithms.length ≤ N) (hlen : list.framed.wire.length < 256 ^ 2) :
    Takes (SignatureAlgorithms.parse N) list.framed.wire (.ok list) := by
  rw [framed, Framed.block_wire, Framed.concat_map_wire] at hlen ⊢
  simp only [Framed.bytes_wire, sized_length] at hlen
  have hcontent : (list.supportedSignatureAlgorithms.flatMap
      fun s => bigEndian 2 s.asU16).length < 256 ^ 2 := by omega
  have htakes := SignatureAlgorithms.takes_parse (N := N) SignatureScheme.asU16
    (fun s _ => s.asU16_lt) hcontent
  simp only [SignatureScheme.of_asU16, List.filterMap_some, List.take_of_length_le hN] at htakes
  exact htakes

theorem SignatureAlgorithmsCert.reads_back {list : SignatureAlgorithmsCert}
    (hN : list.supportedSignatureAlgorithms.length ≤ N) (hlen : list.framed.wire.length < 256 ^ 2) :
    Takes (SignatureAlgorithmsCert.parse N) list.framed.wire (.ok list) := by
  rw [framed, Framed.block_wire, Framed.concat_map_wire] at hlen ⊢
  simp only [Framed.bytes_wire, sized_length] at hlen
  have hcontent : (list.supportedSignatureAlgorithms.flatMap
      fun s => bigEndian 2 s.asU16).length < 256 ^ 2 := by omega
  have htakes := SignatureAlgorithmsCert.takes_parse (N := N) SignatureScheme.asU16
    (fun s _ => s.asU16_lt) hcontent
  rw [foldlM_gather_self (fun s _ => lookup_eq_ok s.of_asU16) hN] at htakes
  exact htakes

theorem SupportedGroups.reads_back {list : SupportedGroups} (hN : list.supportedGroups.length ≤ N)
    (hlen : list.framed.wire.length < 256 ^ 2) :
    Takes (SupportedGroups.parse N) list.framed.wire (.ok list) := by
  rw [framed, Framed.block_wire, Framed.concat_map_wire] at hlen ⊢
  simp only [Framed.bytes_wire, sized_length] at hlen
  have hcontent : (list.supportedGroups.flatMap fun g => bigEndian 2 g.asU16).length < 256 ^ 2 := by
    omega
  have htakes := SupportedGroups.takes_parse (N := N) NamedGroup.asU16
    (fun g _ => g.asU16_lt) hcontent
  rw [foldlM_gather_self (fun g _ => lookup_eq_ok g.of_asU16) hN] at htakes
  exact htakes

theorem PskKeyExchangeModes.reads_back {list : PskKeyExchangeModes} (hN : list.modes.length ≤ N)
    (hlen : (list.modes.flatMap fun m => [m.toU8]).length < 256 ^ 1) :
    Takes (PskKeyExchangeModes.parse N) list.framed.wire (.ok list) := by
  have htakes := PskKeyExchangeModes.takes_parse (N := N) PskKeyExchangeMode.toU8 hlen
  rw [foldlM_gather_self (fun m _ => lookup_eq_ok m.of_toU8) hN] at htakes
  rw [framed, Framed.block_wire, Framed.concat_map_wire]
  exact htakes

theorem KeyShareClientHello.reads_back {list : KeyShareClientHello}
    (hN : list.clientShares.length ≤ N) (hlen : list.framed.wire.length < 256 ^ 2) :
    Takes (KeyShareClientHello.parse N) list.framed.wire (.ok list) := by
  have hwire : list.framed.wire = sized 2 (list.clientShares.flatMap fun e =>
      bigEndian 2 e.group.asU16 ++ sized 2 e.opaqueBytes) := by
    rw [framed, Framed.block_wire, Framed.concat_map_wire]
    rfl
  rw [hwire, sized_length] at hlen
  have hshares : ∀ e ∈ list.clientShares, e.opaqueBytes.length < 256 ^ 2 := by
    intro e he
    have := @length_le_flatMap _ (fun e : KeyShareEntry =>
      bigEndian 2 e.group.asU16 ++ sized 2 e.opaqueBytes) _ _ he
    simp only [List.length_append, bigEndian_length, sized_length] at this
    omega
  have htakes := KeyShareClientHello.takes_parse (N := N) (fun e : KeyShareEntry => e.group.asU16)
    KeyShareEntry.opaqueBytes (fun e _ => e.group.asU16_lt) hshares (by omega)
  rw [foldlM_gather_self (fun e _ => e.read_asU16) hN] at htakes
  rw [hwire]
  exact htakes

end Lists

/-- Every extension but ALPN and pre_shared_key is read back from the bytes written for it. -/
theorem ClientHelloExtension.read_raw {ext : ClientHelloExtension} (h : ext.ReadBack)
    (hlen : ext.framedData.wire.length < 256 ^ 2) :
    ext.raw.read ClientHelloExtension.group = .ok ext := by
  cases ext with
  | serverName data =>
      exact RawExtension.read_of_takes rfl (ServerNameList.reads_back h.1 h.2 hlen).map
  | supportedVersions data =>
      have hbytes : (data.versions.flatMap fun v => bigEndian 2 v.code).length < 256 ^ 1 := by
        have := h.1
        simp only [List.length_flatMap, bigEndian_length, List.map_const', List.sum_replicate,
          smul_eq_mul]
        omega
      exact RawExtension.read_of_takes rfl
        (SupportedVersionsClientHello.reads_back h.1 h.2 hbytes).map
  | signatureAlgorithms data =>
      exact RawExtension.read_of_takes rfl (SignatureAlgorithms.reads_back h hlen).map
  | supportedGroups data =>
      exact RawExtension.read_of_takes rfl (SupportedGroups.reads_back h hlen).map
  | keyShare data => exact RawExtension.read_of_takes rfl (KeyShareClientHello.reads_back h hlen).map
  | preSharedKey data => exact h.elim
  | pskKeyExchangeModes data =>
      have hbytes : (data.modes.flatMap fun m => [m.toU8]).length < 256 ^ 1 := by
        have : data.modes.length ≤ 4 := h
        simp only [List.length_flatMap, List.length_singleton, List.map_const', List.sum_replicate,
          smul_eq_mul]
        omega
      exact RawExtension.read_of_takes rfl (PskKeyExchangeModes.reads_back h hbytes).map
  | signatureAlgorithmsCert data =>
      exact RawExtension.read_of_takes rfl (SignatureAlgorithmsCert.reads_back h hlen).map
  | maxFragmentLength data =>
      have htakes := @takes_readEnum8 _ MaxFragmentLength.of data.toU8
      rw [lookup_eq_ok data.of_toU8] at htakes
      exact RawExtension.read_of_takes rfl htakes.map
  | applicationLayerProtocolNegotiation data => exact h.elim
  | _ data => rfl

/-- The vector parser reads the list off the bytes, and nothing is left behind it. -/
def ReadsBack {α : Type} (group : ExtensionGroup α) (N : Nat) (written : Bytes) (exts : List α) :
    Prop := ∃ b, group.parseVector N (new written) = .ok exts b ∧ b.rest = []

/-- Extensions written one after the other behind a two-byte length. -/
def encodeVector {α : Type} (encode : α → CryptoBuffer.M Unit) (exts : List α) :
    CryptoBuffer.M Unit := withU16Length (exts.forM encode)

theorem vector_round_trip {α : Type} {group : ExtensionGroup α} {encode : α → CryptoBuffer.M Unit}
    {raw : α → RawExtension} {exts : List α} {N : Nat} {b : CryptoBuffer} (hb : b.WF)
    (hencode : ∀ ext ∈ exts, Appends (encode ext) (raw ext).wire) (hN : exts.length ≤ N)
    (hblock : (exts.flatMap fun ext => (raw ext).wire).length ≤ 65535)
    (hroom : 2 + (exts.flatMap fun ext => (raw ext).wire).length ≤ b.space)
    (htype : ∀ ext ∈ exts, (raw ext).type < 256 ^ 2)
    (hread : ∀ ext ∈ exts, (raw ext).data.length < 256 ^ 2 → (raw ext).read group = .ok ext) :
    ∃ b', encodeVector encode exts b = .ok () b' ∧
      ReadsBack group N (b'.asSlice.drop b.len) exts := by
  have happends : Appends (encodeVector encode exts)
      (sized 2 (exts.flatMap fun ext => (raw ext).wire)) :=
    appends_withU16Length (.forM exts hencode)
  refine ⟨_, happends.ok hb (by rw [sized_length]; exact hroom), ?_⟩
  rw [sink_put, appended_asSlice_drop hb]
  obtain ⟨b', hb', hr⟩ := takes_parseVector_of_read hN (by omega) htype hread (new _) []
    (by rw [new_rest, List.append_nil])
  refine ⟨b', hb', ?_⟩
  have hrest := hr.rest_eq
  rw [new_rest] at hrest
  exact List.self_eq_append_right.mp hrest

/-- Server and client extensions written under a two-byte length are read back as the same
list, and nothing is left over. -/
theorem extension_codec_round_trip {b : CryptoBuffer} (hb : b.WF) (N : Nat) :
    (∀ exts : List ServerHelloExtension, exts.length ≤ N → (∀ ext ∈ exts, ext.ReadBack) →
      (exts.flatMap ServerHelloExtension.wire).length ≤ 65535 →
      2 + (exts.flatMap ServerHelloExtension.wire).length ≤ b.space →
      ∃ b', encodeVector ServerHelloExtension.encode exts b = .ok () b' ∧
        ReadsBack ServerHelloExtension.group N (b'.asSlice.drop b.len) exts) ∧
    (∀ exts : List ClientHelloExtension, exts.length ≤ N → (∀ ext ∈ exts, ext.ReadBack) →
      (exts.flatMap fun ext => ext.framed.wire).length ≤ 65535 →
      2 + (exts.flatMap fun ext => ext.framed.wire).length ≤ b.space →
      ∃ b', encodeVector ClientHelloExtension.encode exts b = .ok () b' ∧
        ReadsBack ClientHelloExtension.group N (b'.asSlice.drop b.len) exts) := by
  constructor
  · intro exts hN hexts hblock hroom
    exact @vector_round_trip _ _ _ ServerHelloExtension.raw exts N b hb
      (fun ext _ => ext.appends_encode) hN hblock hroom (fun ext _ => ext.extensionType.toU16_lt)
      (fun ext hext => ServerHelloExtension.read_raw (hexts ext hext))
  · intro exts hN hexts hblock hroom
    exact @vector_round_trip _ _ _ ClientHelloExtension.raw exts N b hb
      (fun ext _ => ext.appends_encode) hN hblock hroom (fun ext _ => ext.extensionType.toU16_lt)
      (fun ext hext => ClientHelloExtension.read_raw (hexts ext hext))

/-- Versions, a name, groups and a share. -/
def someExtensions : List ClientHelloExtension :=
  [.supportedVersions ⟨[TLS13]⟩, .serverName (.single [0x61, 0x2e, 0x62]),
    .supportedGroups ⟨[.x25519, .secp256r1]⟩, .keyShare ⟨[⟨.x25519, [1, 2, 3]⟩]⟩]

theorem some_extensions_round_trip :
    ∃ b', encodeVector ClientHelloExtension.encode someExtensions ⟨List.replicate 100 0, 0, 1⟩ =
        .ok () b' ∧
      ReadsBack ClientHelloExtension.group 16 (b'.asSlice.drop 1) someExtensions := by
  have hb : CryptoBuffer.WF ⟨List.replicate 100 0, 0, 1⟩ := by simp [WF]
  have hexts : ∀ ext ∈ someExtensions, ext.ReadBack := by
    rw [someExtensions, List.forall_mem_cons, List.forall_mem_cons, List.forall_mem_cons,
      List.forall_mem_singleton]
    exact ⟨⟨by decide, by decide⟩, ⟨by decide, by decide⟩, show 2 ≤ 13 by decide,
      show 1 ≤ 4 by decide⟩
  exact (extension_codec_round_trip hb 16).2 someExtensions (by decide) hexts (by decide +kernel)
    (by decide +kernel)

end GatoPskTls
