import GatoPskTls.Lib.Framing
import GatoPskTls.ClientHelloFrame
import GatoPskTls.ExtensionSpec
import GatoPskTls.ServerHello

/-!
# ServerHello: what the encoder writes, the parser reads

The extension parser on the wire form of a list of extensions, and the ServerHello parser
on what `ServerHelloEmit` encodes.
-/
namespace GatoPskTls

open Stateful BigEndian ParseBuffer

theorem NamedGroup.of_asU16 (g : NamedGroup) : NamedGroup.of g.asU16 = some g := by
  cases g <;> rfl

theorem NamedGroup.asU16_lt (g : NamedGroup) : g.asU16 < 256 ^ 2 := by
  cases g <;> decide

theorem ExtensionType.of_toU16 (t : ExtensionType) : ExtensionType.of t.toU16 = some t := by
  cases t <;> rfl

theorem ExtensionType.toU16_lt (t : ExtensionType) : t.toU16 < 256 ^ 2 := by
  cases t <;> decide

theorem lookup_eq_ok {α κ : Type} {of : κ → Option α} {code : κ} {a : α} (h : of code = some a) :
    lookup of code = .ok a := by
  rw [lookup, h]

theorem KeyShareEntry.read_asU16 (entry : KeyShareEntry) :
    KeyShareEntry.read entry.group.asU16 entry.opaqueBytes = .ok entry := by
  rw [KeyShareEntry.read, lookup_eq_ok entry.group.of_asU16]
  rfl

section Extensions

variable {α : Type} {group : ExtensionGroup α}

/-- An extension whose data its own parser takes is read. -/
theorem RawExtension.read_of_takes {t : ExtensionType} {p : Parser ParseError α} {data : Bytes}
    {ext : α} (hp : group t = some p) (h : Takes p data (.ok ext)) :
    RawExtension.read group ⟨t.toU16, data⟩ = .ok ext := by
  simp only [RawExtension.read, ExtensionType.of_toU16, hp, h.outcome_new, mapError_ok_eq]

/-- A block of extensions that are all read is a vector of what they stand for. -/
theorem takes_parseVector_of_read {N : Nat} {exts : List α} {raw : α → RawExtension}
    (hN : exts.length ≤ N) (hblock : (exts.flatMap fun ext => (raw ext).wire).length < 256 ^ 2)
    (htype : ∀ ext ∈ exts, (raw ext).type < 256 ^ 2)
    (hread : ∀ ext ∈ exts, (raw ext).data.length < 256 ^ 2 → (raw ext).read group = .ok ext) :
    Takes (group.parseVector N) (sized 2 (exts.flatMap fun ext => (raw ext).wire)) (.ok exts) := by
  have hdata : ∀ ext ∈ exts, (raw ext).data.length < 256 ^ 2 := by
    intro ext hext
    have := @length_le_flatMap _ (fun ext => (raw ext).wire) _ _ hext
    rw [RawExtension.wire_length] at this
    omega
  have hwires : (exts.map raw).flatMap RawExtension.wire = exts.flatMap fun ext => (raw ext).wire :=
    List.flatMap_map ..
  have hfold := @RawExtension.foldlM_enroll_of_read _ _ _ _ _ raw id hN
    fun ext hext => hread ext hext (hdata ext hext)
  rw [List.map_id] at hfold
  have htakes := takes_parseVector group N (fun e he => by
    obtain ⟨ext, hext, rfl⟩ := List.mem_map.mp he
    exact ⟨htype ext hext, hdata ext hext⟩) (hwires ▸ hblock)
  rwa [hfold, hwires] at htakes

end Extensions

namespace ServerHelloExtension

def raw (ext : ServerHelloExtension) : RawExtension := ⟨ext.extensionType.toU16, ext.dataWire⟩

/-- The numbers of the source have two bytes. -/
def ReadBack : ServerHelloExtension → Prop
  | preSharedKey data => data.selectedIdentity < 256 ^ 2
  | supportedVersions data => data.selectedVersion.code < 256 ^ 2
  | _ => True

theorem read_raw {ext : ServerHelloExtension} (h : ext.ReadBack)
    (hlen : ext.dataWire.length < 256 ^ 2) : ext.raw.read ServerHelloExtension.group = .ok ext := by
  cases ext with
  | keyShare data =>
      simp only [dataWire, List.length_append, bigEndian_length, sized_length] at hlen
      have htakes := KeyShareEntry.takes_parse data.entry.group.asU16_lt
        (show data.entry.opaqueBytes.length < 256 ^ 2 by omega)
      rw [data.entry.read_asU16] at htakes
      exact RawExtension.read_of_takes rfl htakes.map.map
  | preSharedKey data => exact RawExtension.read_of_takes rfl (takes_readU16 h).map.map
  | cookie data => rfl
  | supportedVersions data =>
      exact RawExtension.read_of_takes rfl (ProtocolVersion.takes_parse h).map.map

end ServerHelloExtension

/-- The parser reads back the extensions of every ServerHello the server may send. -/
theorem ServerHelloEmit.takes_wire {sh : ServerHelloEmit} {suite : CipherSuite}
    (hsid : sh.legacySessionIdEcho.length ≤ 32) (hcode : sh.cipherSuite < 256 ^ 2)
    (hsuite : CipherSuite.of sh.cipherSuite = some suite) (hexts : ∀ ext ∈ sh.extensions, ext.ReadBack)
    (hcount : sh.extensions.length ≤ 4)
    (hblock : (sh.extensions.flatMap ServerHelloExtension.wire).length < 256 ^ 2) :
    Takes ServerHello.parse sh.wire (.ok ⟨sh.extensions⟩) := by
  obtain ⟨n, hn, hid⟩ := @exists_sized_one sh.legacySessionIdEcho (by omega)
  have hcipher := @takes_readEnum16 _ CipherSuite.of _ hcode
  rw [lookup_eq_ok hsuite] at hcipher
  have hvector := @takes_parseVector_of_read _ ServerHelloExtension.group 4 sh.extensions
    ServerHelloExtension.raw hcount hblock (fun ext _ => ext.extensionType.toU16_lt)
    fun ext hext => ServerHelloExtension.read_raw (hexts ext hext)
  rw [ServerHelloEmit.wire, hid, List.append_assoc]
  exact (takes_readU16 (by decide)).mapError.bind <| (takes_fill sh.random).mapError.bind <|
    (takes_readU8 n).mapError.bind <| (takes_slice hn).mapError.bind <| hcipher.mapError.bind <|
    (takes_readU8 0).mapError.bind hvector.map

end GatoPskTls
