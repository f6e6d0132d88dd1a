import GatoPskTls.ClientHelloBinders
import GatoPskTls.ExtensionCodec
import GatoPskTls.Rfc8446

/-!
# Client and server on one ClientHello

What `ClientHello::encode` and `finalize` leave in the buffer is a message the server's parser
accepts: the binders patched in at the end are where the parser looks for them, and they verify
over the bytes before them.
-/
namespace GatoPskTls

open Stateful BigEndian ParseBuffer CryptoBuffer Rfc8446

namespace AlpnProtocolNameList

theorem takes_step {name : Bytes} (hpos : 0 < name.length) (hlen : name.length < 256 ^ 1) :
    Takes (step ()) (sized 1 name) (.ok ()) := by
  obtain ⟨n, hn, hw⟩ := exists_sized_one hlen
  rw [hw, step]
  apply (takes_readU8 n).bind
  rw [if_neg (by rintro rfl; rw [hn] at hpos; cases hpos)]
  exact (takes_slice hn).map

/-- The names are looked at and forgotten. -/
theorem takes_parse {list : AlpnProtocolNameList}
    (hnames : ∀ name ∈ list.protocols, 0 < name.length ∧ name.length < 256 ^ 1)
    (hlen : list.framed.wire.length < 256 ^ 2) :
    Takes AlpnProtocolNameList.parse list.framed.wire (.ok ⟨[]⟩) := by
  have hwire : list.framed.wire = sized 2 (list.protocols.flatMap (sized 1)) := by
    rw [framed, Framed.block_wire, Framed.concat_map_wire]
    rfl
  have hfold : ∀ names : List Bytes,
      names.foldlM (fun (_ : Unit) _ => (.ok () : Except ParseError Unit)) () = .ok () := by
    intro names
    induction names with
    | nil => rfl
    | cons name names ih => rw [List.foldlM_cons, ok_bind, ih]
  have hloop := @takes_within_loop _ _ _ step (fun _ _ => .ok ()) (sized 1) list.protocols
    (fun _ _ => by rw [sized_length]; omega)
    (fun name hname _ => takes_step (hnames name hname).1 (hnames name hname).2) ()
  rw [hfold] at hloop
  rw [hwire, sized_length] at hlen
  rw [hwire, sized, AlpnProtocolNameList.parse]
  apply (takes_readU16 (by omega)).bind
  apply (takes_slice rfl).bind_last
  exact hloop.bind_last (.pure _)

end AlpnProtocolNameList

namespace PreSharedKeyClientHello

variable {N : Nat}

def identityWire (identity : Bytes) : Bytes := sized 2 identity ++ bigEndian 4 0

/-- Identities and binders as they stand on the wire are read back. -/
theorem takes_offer {ids binders : List Bytes} {h : Nat} (hne : ids ≠ []) (hN : ids.length ≤ N)
    (hids : ∀ id ∈ ids, 0 < id.length) (hidsLen : (ids.flatMap identityWire).length < 256 ^ 2)
    (hcount : binders.length = ids.length) (hmin : 32 ≤ h) (hmax : h < 256 ^ 1)
    (hlen : ∀ binder ∈ binders, binder.length = h)
    (hbindersLen : (binders.flatMap (sized 1)).length < 256 ^ 2) :
    Takes (parse N) (sized 2 (ids.flatMap identityWire) ++ ClientHelloRef.bindersWire binders)
      (.ok ⟨ids, binders, h⟩) := by
  have hfits : ∀ id ∈ ids, id.length < 256 ^ 2 := by
    intro id hid
    have hle := @length_le_flatMap _ identityWire _ _ hid
    simp only [identityWire, List.length_append, sized_length] at hle
    omega
  -- the identities as entries without a ticket age
  let entries : List PskIdentity := ids.attach.map fun id =>
    ⟨id.val, ⟨bigEndian 4 0, bigEndian_length 4 0⟩, List.length_pos_iff.mp (hids id.val id.property),
      hfits id.val id.property⟩
  have hidentities : entries.map PskIdentity.identity = ids := by
    rw [List.map_map]
    exact List.attach_map_subtype_val ids
  have hwire : entries.flatMap PskIdentity.wire = ids.flatMap identityWire := by
    conv_rhs => rw [← hidentities, List.flatMap_map]
    simp only [entries, List.flatMap_map]
    rfl
  let offered : OfferedPsks N :=
    { identities := entries, binders, hashSize := h
      nonempty := by simpa [entries] using hne
      capacity := by simpa [entries] using hN
      paired := by simpa [entries] using hcount
      binder_length := hlen, hashSize_ge := hmin, hashSize_lt := hmax
      identities_fit := by rw [hwire]; exact hidsLen
      binders_fit := hbindersLen }
  have htakes := takes_parse offered
  simp only [OfferedPsks.wire, OfferedPsks.identityBlock, OfferedPsks.binderBlock, OfferedPsks.kept, offered,
    hwire, hidentities] at htakes
  exact htakes

end PreSharedKeyClientHello

/-- Of the last extension's data only the length shows in what stands before its end. -/
theorem HelloFields.message_last (f : HelloFields) (earlier : List RawExtension) (type : Nat)
    (x : Bytes) (n : Nat) :
    ∃ before, ∀ z : Bytes, z.length = n →
      f.message (earlier ++ [⟨type, x ++ z⟩]) = before ++ z := by
  refine ⟨[1] ++ (bigEndian 3 (f.wire.length + (2 + ((earlier.flatMap RawExtension.wire).length +
    (4 + (x.length + n))))) ++ (f.wire ++ (bigEndian 2 ((earlier.flatMap RawExtension.wire).length +
      (4 + (x.length + n))) ++ (earlier.flatMap RawExtension.wire ++ (bigEndian 2 type ++
        (bigEndian 2 (x.length + n) ++ x)))))), fun z hz => ?_⟩
  have hdata : (x ++ z).length = x.length + n := by rw [List.length_append, hz]
  have hblock : ((earlier ++ [(⟨type, x ++ z⟩ : RawExtension)]).flatMap RawExtension.wire).length =
      (earlier.flatMap RawExtension.wire).length + (4 + (x.length + n)) := by
    rw [List.flatMap_append, List.flatMap_singleton, List.length_append, RawExtension.wire_length,
      hdata]
  rw [HelloFields.message, sized, List.length_append, sized_length, hblock, sized, hblock,
    List.flatMap_append, List.flatMap_singleton, RawExtension.wire, sized, hdata]
  simp only [List.append_assoc]

namespace ClientHelloExtension

/-- The form a sent extension is parsed into: the names of ALPN are dropped. -/
def asParsed : ClientHelloExtension → ClientHelloExtension
  | applicationLayerProtocolNegotiation _ => applicationLayerProtocolNegotiation ⟨[]⟩
  | ext => ext

/-- An extension other than pre_shared_key that is read. -/
def Readable : ClientHelloExtension → Prop
  | applicationLayerProtocolNegotiation data =>
      ∀ name ∈ data.protocols, 0 < name.length ∧ name.length < 256 ^ 1
  | ext => ext.ReadBack

theorem read_raw_asParsed {ext : ClientHelloExtension} (h : ext.Readable)
    (hlen : ext.framedData.wire.length < 256 ^ 2) :
    ext.raw.read ClientHelloExtension.group = .ok ext.asParsed := by
  cases ext with
  | applicationLayerProtocolNegotiation data =>
      exact RawExtension.read_of_takes rfl (AlpnProtocolNameList.takes_parse h hlen).map
  | _ => exact read_raw h hlen

end ClientHelloExtension

namespace ClientHello

variable {cs : TlsCipherSuite} (hello : ClientHello cs)

/-- The fields before the extensions. -/
def fields : HelloFields where
  legacyVersion := 0x0303
  random := hello.random
  legacySessionId := []
  cipherSuites := bigEndian 2 cs.codePoint
  legacyCompressionMethods := [0]
  version_lt := by decide
  sessionId_le := by decide
  suites_ge := by simp
  suites_even := by simp
  suites_lt := by simp
  compression_pos := by decide
  compression_lt := by decide

/-- The extensions in front of pre_shared_key. -/
def earlierExtensions : List ClientHelloExtension :=
  [ClientHelloExtension.supportedVersions ⟨[TLS13]⟩,
    ClientHelloExtension.signatureAlgorithms ⟨hello.config.signatureSchemes⟩] ++
  ((hello.config.maxFragmentLength.map ClientHelloExtension.maxFragmentLength).toList ++
  ([ClientHelloExtension.supportedGroups ⟨hello.config.namedGroups⟩,
    ClientHelloExtension.pskKeyExchangeModes ⟨[.pskDheKe]⟩,
    ClientHelloExtension.keyShare ⟨[⟨.secp256r1, hello.publicKey.val⟩]⟩] ++
  ((hello.config.serverName.map fun name => ClientHelloExtension.serverName (.single name)).toList ++
  (hello.config.alpnProtocols.map fun protocols =>
    ClientHelloExtension.applicationLayerProtocolNegotiation ⟨protocols⟩).toList)))

theorem extensions_eq :
    hello.extensions = hello.earlierExtensions ++ hello.pskExtension.toList := by
  simp only [extensions, earlierExtensions, List.append_assoc]

theorem earlierExtensions_length : hello.earlierExtensions.length ≤ 8 := by
  have hoptional : ∀ {α : Type} (x : Option α), x.toList.length ≤ 1 := by
    intro α x
    cases x <;> simp
  have h₁ := hoptional (hello.config.maxFragmentLength.map ClientHelloExtension.maxFragmentLength)
  have h₂ := hoptional (hello.config.serverName.map fun name =>
    ClientHelloExtension.serverName (.single name))
  have h₃ := hoptional (hello.config.alpnProtocols.map fun protocols =>
    ClientHelloExtension.applicationLayerProtocolNegotiation ⟨protocols⟩)
  simp only [earlierExtensions, List.length_append, List.length_cons, List.length_nil]
  omega

/-- What is asked of a configuration, besides its identities. -/
structure Plain (config : TlsConfig) : Prop where
  ascii : ∀ name ∈ config.serverName, name.all (· < 128) = true
  protocols : ∀ protocols ∈ config.alpnProtocols, ∀ name ∈ protocols,
    1 ≤ name.length ∧ name.length ≤ 255

theorem earlierExtensions_readable (h : Plain hello.config) :
    ∀ ext ∈ hello.earlierExtensions, ext.Readable := by
  have hoptional : ∀ {α : Type} (x : Option α) (ext : α → ClientHelloExtension),
      (∀ e ∈ (x.map ext).toList, e.Readable) ↔ ∀ a ∈ x, (ext a).Readable := by
    intro α x ext
    cases x <;> simp
  rw [earlierExtensions]
  simp only [List.forall_mem_append, List.forall_mem_cons, hoptional]
  refine ⟨⟨⟨by decide, by decide⟩, hello.config.schemes_le, by simp⟩, fun _ _ => trivial,
    ⟨hello.config.groups_le, (by decide : 1 ≤ 4), (by decide : 1 ≤ 4), by simp⟩, ?_, ?_⟩
  · intro name hname
    exact ⟨by simp [ServerNameList.single], by simpa [ServerNameList.single] using h.ascii name hname⟩
  · intro protocols hprotocols name hname
    have := h.protocols protocols hprotocols name hname
    exact ⟨by omega, by omega⟩

theorem framed_wire_eq :
    hello.framed.wire = hello.fields.message (hello.extensions.map ClientHelloExtension.raw) := by
  have hexts : hello.framedExtensions.wire =
      (hello.extensions.map ClientHelloExtension.raw).flatMap RawExtension.wire := by
    rw [framedExtensions, Framed.concat_map_wire, List.flatMap_map]
    rfl
  rw [framed, Framed.append_wire, Framed.block_wire, Framed.append_wire, Framed.block_wire, hexts]
  rfl

/-- The pre_shared_key extension with its binders. -/
def offeredRaw (ids binders : List Bytes) : RawExtension :=
  ⟨ExtensionType.preSharedKey.toU16,
    sized 2 (ids.flatMap PreSharedKeyClientHello.identityWire) ++ ClientHelloRef.bindersWire binders⟩

/-- The extensions of the finished message. -/
def sentRaw (ids binders : List Bytes) : List RawExtension :=
  hello.earlierExtensions.map ClientHelloExtension.raw ++ [offeredRaw ids binders]

section Finalized

variable {hello} {secret : Bytes} {ids : List Bytes} {bs : List (PskBinder cs)}

/-- The patched message is the one whose pre_shared_key extension holds the binders. -/
theorem finalized_eq (hpsk : hello.config.psk = some (secret, ids)) (hcount : bs.length = ids.length) :
    hello.finalized bs = hello.fields.message (hello.sentRaw ids (bs.map fun b => b.verify.val)) := by
  have hids : hello.config.identities = ids := by simp [TlsConfig.identities, hpsk]
  have hflat := bindersWire_length bs
  set n := ids.length * (1 + cs.hashLen) with hn
  set flat := bs.flatMap fun binder => sized 1 binder.verify.val with hflatEq
  rw [hcount, ← hn] at hflat
  obtain ⟨before, hbefore⟩ := hello.fields.message_last
    (hello.earlierExtensions.map ClientHelloExtension.raw) ExtensionType.preSharedKey.toU16
    (sized 2 (ids.flatMap PreSharedKeyClientHello.identityWire) ++ bigEndian 2 n) n
  -- the zeros that are written first stand where the binders go
  have hblank : hello.framed.wire = before ++ List.replicate n 0 := by
    have hdata : (ClientHelloExtension.preSharedKey ⟨ids, [], cs.hashLen⟩).raw =
        ⟨ExtensionType.preSharedKey.toU16, (sized 2 (ids.flatMap
          PreSharedKeyClientHello.identityWire) ++ bigEndian 2 n) ++ List.replicate n 0⟩ := by
      have hwire : (ClientHelloExtension.preSharedKey ⟨ids, [], cs.hashLen⟩).framedData.wire =
          sized 2 (ids.flatMap PreSharedKeyClientHello.identityWire) ++
            sized 2 (List.replicate ((1 + cs.hashLen) * ids.length) 0) := by
        rw [ClientHelloExtension.framedData, PreSharedKeyClientHello.framed, Framed.append_wire,
          Framed.block_wire, Framed.concat_map_wire]
        rfl
      rw [ClientHelloExtension.raw, hwire, Nat.mul_comm, ← hn, sized, sized, List.length_replicate,
        List.append_assoc, List.append_assoc, List.append_assoc]
      rfl
    rw [framed_wire_eq, extensions_eq, pskExtension, hpsk, List.map_append, Option.map_some,
      Option.toList_some, List.map_singleton, hdata]
    exact hbefore _ List.length_replicate
  have hstart : hello.beforeBinders = before := by
    rw [beforeBinders, hids, ← hn, hblank, List.length_append, List.length_replicate,
      Nat.add_sub_cancel, List.take_left]
  have hraw : offeredRaw ids (bs.map fun b => b.verify.val) =
      ⟨ExtensionType.preSharedKey.toU16,
        (sized 2 (ids.flatMap PreSharedKeyClientHello.identityWire) ++ bigEndian 2 n) ++ flat⟩ := by
    have hmap : (bs.map fun b => b.verify.val).flatMap (sized 1) = flat := List.flatMap_map ..
    have hsized : sized 2 flat = bigEndian 2 n ++ flat := by rw [sized, hflat]
    rw [offeredRaw, ClientHelloRef.bindersWire, hmap, hsized, List.append_assoc]
  rw [finalized, hstart, sentRaw, hraw, hbefore flat hflat]

/-- The extensions as the server holds them. -/
def parsedExtensions (hello : ClientHello cs) (ids binders : List Bytes) :
    List ClientHelloExtension :=
  hello.earlierExtensions.map ClientHelloExtension.asParsed ++
    [.preSharedKey ⟨ids, binders, cs.hashLen⟩]

theorem pskPlaced_parsedExtensions (ids binders : List Bytes) :
    ClientHelloRef.PskPlaced (hello.parsedExtensions ids binders) := by
  have hnone : ∀ ext ∈ hello.earlierExtensions.map ClientHelloExtension.asParsed,
      ClientHelloRef.pskOf ext = none := by
    intro ext hext
    obtain ⟨e, he, rfl⟩ := List.mem_map.mp hext
    simp only [earlierExtensions, List.mem_append, List.mem_cons, Option.mem_toList,
      Option.map_eq_some_iff, List.not_mem_nil, or_false] at he
    rcases he with (rfl | rfl) | ⟨_, -, rfl⟩ | (rfl | rfl | rfl) | ⟨_, -, rfl⟩ | ⟨_, -, rfl⟩
    all_goals rfl
  exact .of_last hnone _

/-- The server's parser takes the offer for what it is. -/
theorem offeredRaw_read (hids : ∀ id ∈ ids, id ≠ []) (hne : ids ≠ []) (hmax : ids.length ≤ 4)
    (hcount : bs.length = ids.length)
    (hfits : (offeredRaw ids (bs.map fun b => b.verify.val)).data.length < 256 ^ 2) :
    (offeredRaw ids (bs.map fun b => b.verify.val)).read ClientHelloExtension.group =
      .ok (.preSharedKey ⟨ids, bs.map fun b => b.verify.val, cs.hashLen⟩) := by
  simp only [offeredRaw, ClientHelloRef.bindersWire, List.length_append, sized_length] at hfits
  have hsize : 32 ≤ cs.hashLen ∧ cs.hashLen < 256 ^ 1 := by
    cases cs <;> exact ⟨by decide, by decide⟩
  have hbinders : ∀ binder ∈ bs.map fun b => b.verify.val, binder.length = cs.hashLen := by
    intro binder hbinder
    obtain ⟨b, -, rfl⟩ := List.mem_map.mp hbinder
    exact b.verify.property
  exact RawExtension.read_of_takes rfl (PreSharedKeyClientHello.takes_offer hne hmax
    (fun id hid => List.length_pos_iff.mpr (hids id hid)) (by omega) (by simpa using hcount)
    hsize.1 hsize.2 hbinders (by omega)).map

theorem finalized_length (hpsk : hello.config.psk = some (secret, ids))
    (hcount : bs.length = ids.length) : (hello.finalized bs).length = 47 + hello.extensionsLength := by
  have hids : hello.config.identities = ids := by simp [TlsConfig.identities, hpsk]
  have hbefore := hello.beforeBinders_length
  rw [hids, ← hcount] at hbefore
  rw [← framed_length, finalized, List.length_append, bindersWire_length, hbefore]

theorem sentRaw_data_lt {ids binders : List Bytes}
    (hblock : ((hello.sentRaw ids binders).flatMap RawExtension.wire).length < 256 ^ 2)
    {e : RawExtension} (he : e ∈ hello.sentRaw ids binders) : e.data.length < 256 ^ 2 := by
  have := @length_le_flatMap _ RawExtension.wire _ _ he
  rw [RawExtension.wire_length] at this
  omega

theorem sentRaw_fits {ids binders : List Bytes}
    (hblock : ((hello.sentRaw ids binders).flatMap RawExtension.wire).length < 256 ^ 2)
    {e : RawExtension} (he : e ∈ hello.sentRaw ids binders) : e.Fits := by
  refine ⟨?_, sentRaw_data_lt hblock he⟩
  rcases List.mem_append.mp he with he | he
  · obtain ⟨ext, -, rfl⟩ := List.mem_map.mp he
    exact ext.extensionType.toU16_lt
  · rw [List.mem_singleton.mp he]
    exact ExtensionType.toU16_lt .preSharedKey

/-- Every extension of the finished message is read. -/
theorem sentRaw_enrolled {NEXT : Nat} (hnext : 9 ≤ NEXT) (hplain : Plain hello.config)
    (hpsk : hello.config.psk = some (secret, ids)) (hne : ids ≠ []) (hids : ∀ id ∈ ids, id ≠ [])
    (hcount : bs.length = ids.length) (hblock : ((hello.sentRaw ids
      (bs.map fun b => b.verify.val)).flatMap RawExtension.wire).length < 256 ^ 2) :
    (hello.sentRaw ids (bs.map fun b => b.verify.val)).foldlM
        (RawExtension.enroll ClientHelloExtension.group NEXT) [] =
      .ok (hello.parsedExtensions ids (bs.map fun b => b.verify.val)) := by
  set binders := bs.map fun b => b.verify.val with hbinders
  -- each extension of the message with the form it is parsed into
  let pairs : List (RawExtension × ClientHelloExtension) :=
    hello.earlierExtensions.map (fun ext => (ext.raw, ext.asParsed)) ++
      [(offeredRaw ids binders, .preSharedKey ⟨ids, binders, cs.hashLen⟩)]
  have hread : ∀ p ∈ pairs, p.1.read ClientHelloExtension.group = .ok p.2 := by
    intro p hp
    rcases List.mem_append.mp hp with hp | hp
    · obtain ⟨ext, hext, rfl⟩ := List.mem_map.mp hp
      exact ClientHelloExtension.read_raw_asParsed (hello.earlierExtensions_readable hplain ext hext)
        (sentRaw_data_lt hblock (List.mem_append_left _ (List.mem_map_of_mem hext)))
    · rw [List.mem_singleton.mp hp]
      exact offeredRaw_read hids hne (hello.config.identities_le _ hpsk) hcount
        (sentRaw_data_lt hblock (List.mem_append_right _ (List.mem_singleton_self _)))
  have hcapacity : pairs.length ≤ NEXT := by
    have := hello.earlierExtensions_length
    simp only [pairs, List.length_append, List.length_map, List.length_singleton]
    omega
  have hfold := RawExtension.foldlM_enroll_of_read hcapacity hread
  have hraw : pairs.map Prod.fst = hello.sentRaw ids binders := by simp [pairs, sentRaw]
  have hparsed : pairs.map Prod.snd = hello.parsedExtensions ids binders := by
    simp [pairs, parsedExtensions]
  rwa [hraw, hparsed] at hfold

/-- The server reads the finished message as what the client meant by it. -/
theorem parse_finalized {NEXT : Nat} (hnext : 9 ≤ NEXT) (hplain : Plain hello.config)
    (hpsk : hello.config.psk = some (secret, ids)) (hne : ids ≠ []) (hids : ∀ id ∈ ids, id ≠ [])
    (hshort : 47 + hello.extensionsLength < 65536) (hcount : bs.length = ids.length) :
    ∃ start rest, ClientHelloRef.parse NEXT (new (hello.finalized bs)) =
        .ok (hello.fields.ref (hello.parsedExtensions ids (bs.map fun b => b.verify.val)) start) rest ∧
      start + 2 + ids.length * (1 + cs.hashLen) = (hello.finalized bs).length := by
  have hmessage := finalized_eq hpsk hcount
  have hlength := finalized_length hpsk hcount
  set binders := bs.map fun b => b.verify.val with hbinders
  have hblock : ((hello.sentRaw ids binders).flatMap RawExtension.wire).length < 256 ^ 2 := by
    rw [hmessage] at hlength
    simp only [HelloFields.message, List.length_append, sized_length] at hlength
    omega
  have hfold := sentRaw_enrolled hnext hplain hpsk hne hids hcount hblock
  obtain ⟨-, hlist, -⟩ := (RawExtension.foldlM_enroll_eq_ok (Nat.zero_le _)).mp hfold
  rw [List.nil_append] at hlist
  obtain ⟨start, hstart⟩ := (ClientHelloRef.findBindersStart_found (fun psk hmem =>
    ClientHelloRef.bindersWireLen_le_message (f := hello.fields) (hlist ▸ hmem))).mpr
    (hello.pskPlaced_parsedExtensions ids binders)
  have hanswer := ClientHelloRef.parse_message NEXT hello.fields
    (fun e he => sentRaw_fits hblock he) hblock []
  rw [List.append_nil, ← hmessage, hfold, ok_bind, hmessage, hstart, ok_bind, ← hmessage] at hanswer
  refine ⟨start, _, outcome_eq_ok hanswer, ?_⟩
  obtain ⟨-, hoffset⟩ := ClientHelloRef.findBindersStart_eq_ok hstart
    (List.mem_append_right _ (List.mem_singleton_self _))
  have hwireLen : ClientHelloRef.bindersWireLen binders = 2 + ids.length * (1 + cs.hashLen) := by
    rw [← ClientHelloRef.bindersWire_length, ClientHelloRef.bindersWire, sized_length, hbinders,
      List.flatMap_map, bindersWire_length, hcount]
  rw [hmessage, ← hoffset, hwireLen]
  omega

/-- With a binder key every identity gets the same binder. -/
theorem binders_eq {P : Primitives cs} {ks : WriteKeySchedule cs} {prk : GenericArray cs.hashLen}
    (hkey : ks.binderKey = .initialized prk) (transcript : Bytes) :
    hello.binders P ks transcript =
      .ok (hello.config.identities.map fun _ => ⟨finishedMac P prk (transcript ++ hello.truncated)⟩) := by
  have hcreate : KeySchedule.createPskBinder P ks (transcript ++ hello.truncated) =
      pure ⟨finishedMac P prk (transcript ++ hello.truncated)⟩ := by
    rw [KeySchedule.createPskBinder, hkey, KeySchedule.finishedMac_eq]
    rfl
  rw [binders, hcreate]
  exact List.mapM_pure

theorem verifyPskBinder_self {P : Primitives cs} {ks : KeySchedule cs} {prk : GenericArray cs.hashLen}
    (hkey : ks.clientState.binderKey = .initialized prk) (transcript : Bytes) :
    KeySchedule.verifyPskBinder P ks transcript (finishedMac P prk transcript).val = .ok true := by
  rw [KeySchedule.verifyPskBinder, KeySchedule.verifyMac, hkey, KeySchedule.finishedMac_eq]
  simp [pure, Except.pure]

end Finalized

/-- A ClientHello that fits is accepted by the server's parser with the same random, the same
identities and a binder for each. The offset it finds is the one `finalize` hashed up to, every
binder verifies over the bytes before it under the same PSK, and the transcript `finalize` leaves
behind is the whole message. -/
theorem client_server_agree (P : Primitives cs) {NEXT : Nat} (hnext : 9 ≤ NEXT) {secret : Bytes}
    {ids : List Bytes} (hpsk : hello.config.psk = some (secret, ids)) (hne : ids ≠ [])
    (hids : ∀ id ∈ ids, id ≠ []) (hplain : Plain hello.config) {b : CryptoBuffer} (hb : b.WF)
    (hroom : 47 + hello.extensionsLength ≤ b.space) (hshort : 47 + hello.extensionsLength < 65536) :
    ∃ ks b' msg, KeySchedule.initializeEarlySecret P (some secret) .new = .ok () ks ∧
      hello.encodeHandshake b = .ok () b' ∧
      hello.finalize P ks.clientState ⟨b'.asSlice.drop b.len, []⟩ = .ok () ⟨msg, msg⟩ ∧
      ∃ ref rest psk, ClientHelloRef.parse NEXT (new msg) = .ok ref rest ∧
        ref.random = hello.random ∧
        ref.extensions.getLast? = some (.preSharedKey psk) ∧
        psk.identities = ids ∧ psk.binders.length = ids.length ∧
        ref.bindersStartOffset = msg.length - ids.length * (1 + cs.hashLen) - 2 ∧
        msg.take ref.bindersStartOffset =
          (b'.asSlice.drop b.len).take ref.bindersStartOffset ∧
        ∀ binder ∈ psk.binders, KeySchedule.verifyPskBinder P ks
          (msg.take ref.bindersStartOffset) binder = .ok true := by
  have hidentities : hello.config.identities = ids := by simp [TlsConfig.identities, hpsk]
  let ks := early P secret (.new : KeySchedule cs)
  obtain ⟨prk, hkey⟩ : ∃ prk, ks.clientState.binderKey = .initialized prk := ⟨_, rfl⟩
  let bs : List (PskBinder cs) := ids.map fun _ => ⟨finishedMac P prk hello.truncated⟩
  have hcount : bs.length = ids.length := List.length_map _
  have hencode : hello.encodeHandshake b = .ok () (b.appended hello.framed.wire) :=
    hello.appends_encodeHandshake.ok hb (by rw [framed_length]; exact hroom)
  have hwritten : (b.appended hello.framed.wire).asSlice.drop b.len = hello.framed.wire :=
    appended_asSlice_drop hb
  have hbinders : hello.binders P ks.clientState [] = .ok bs := by
    rw [binders_eq hkey, hidentities]
    rfl
  have hfinalize := finalize_of_ok hbinders
  obtain ⟨start, rest, hparse, hoffset⟩ := parse_finalized hnext hplain hpsk hne hids hshort hcount
  have hlength := finalized_length hpsk hcount
  have hstart : start = hello.beforeBinders.length - 2 := by
    have := hello.beforeBinders_length
    rw [hidentities, framed_length] at this
    omega
  have htake : (hello.finalized bs).take start = hello.truncated := by
    rw [hstart, finalized, List.take_append_of_le_length (by omega)]
    rfl
  refine ⟨ks, _, hello.finalized bs, KeySchedule.initializeEarlySecret_eq P _ _, hencode, ?_,
    _, rest, _, hparse, rfl, List.getLast?_concat, rfl, by simp [bs], ?_, ?_, ?_⟩
  · rw [hwritten]
    exact hfinalize
  · simp only [HelloFields.ref]
    omega
  · rw [hwritten]
    simp only [HelloFields.ref]
    rw [htake, hstart, truncated, ← hello.take_beforeBinders, List.take_take, take_beforeBinders,
      Nat.min_eq_left (Nat.sub_le _ _)]
  · intro binder hbinder
    simp only [HelloFields.ref, bs, List.map_map, List.mem_map] at hbinder ⊢
    obtain ⟨id, -, rfl⟩ := hbinder
    rw [htake]
    exact verifyPskBinder_self hkey _

/-- A ClientHello with two identities, a server name and an ALPN name. -/
def offering : ClientHello .aes256GcmSha384 where
  config := ⟨some [0x61, 0x2e, 0x62], some [[0x68, 0x32]], some ([1, 2, 3], [[0x61], [0x62, 0x63]]),
    [.ecdsaSecp256r1Sha256], [.secp256r1], none, by decide, by decide, by simp⟩
  random := (ofProtocols .aes256GcmSha384 []).random
  publicKey := (ofProtocols .aes256GcmSha384 []).publicKey

theorem offering_plain : Plain offering.config := by
  constructor
  · rintro name ⟨⟩
    decide
  · rintro protocols ⟨⟩ name hname
    rw [List.mem_singleton.mp hname]
    decide

theorem offering_agreed :
    ∃ ks b' msg, KeySchedule.initializeEarlySecret (.checksumming .aes256GcmSha384) (some [1, 2, 3])
        .new = .ok () ks ∧
      offering.encodeHandshake (CryptoBuffer.wrap (List.replicate 400 0)) = .ok () b' ∧
      offering.finalize (.checksumming .aes256GcmSha384) ks.clientState ⟨b'.asSlice.drop 0, []⟩ =
        .ok () ⟨msg, msg⟩ ∧
      ∃ ref rest psk, ClientHelloRef.parse 16 (new msg) = .ok ref rest ∧
        ref.random = offering.random ∧
        ref.extensions.getLast? = some (.preSharedKey psk) ∧
        psk.identities = [[0x61], [0x62, 0x63]] ∧ psk.binders.length = 2 ∧
        ref.bindersStartOffset = msg.length - 2 * (1 + 48) - 2 ∧
        msg.take ref.bindersStartOffset = (b'.asSlice.drop 0).take ref.bindersStartOffset ∧
        ∀ binder ∈ psk.binders, KeySchedule.verifyPskBinder (.checksumming .aes256GcmSha384) ks
          (msg.take ref.bindersStartOffset) binder = .ok true := by
  have hids : ∀ id ∈ [[0x61], [0x62, 0x63]], id ≠ ([] : Bytes) := by decide
  have hlength : offering.extensionsLength ≤ 300 := by decide
  have hspace : (CryptoBuffer.wrap (List.replicate 400 0)).space = 400 := by
    simp only [CryptoBuffer.space, CryptoBuffer.capacity, CryptoBuffer.wrap, List.length_replicate]
  exact offering.client_server_agree _ (by decide) rfl (by decide) hids offering_plain
    (b := CryptoBuffer.wrap (List.replicate 400 0)) (Nat.zero_le _) (by omega) (by omega)

end ClientHello

end GatoPskTls
