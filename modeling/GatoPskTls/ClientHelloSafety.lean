import GatoPskTls.ClientHello
import GatoPskTls.ParserSafety

/-!
# The ClientHello parser: what it asks

The parsers of the extensions a ClientHello may carry and of the message itself, with what they
ask. The walk back to the binders and the list of positions are met because of what the parsers
have checked before.
-/
namespace GatoPskTls.Checked

open GatoPskTls Stateful BigEndian Tracing Traced Demands

variable {ε ε' α β : Type}

/-- A code point that was looked up. -/
def orInvalidData : Option α → ParserM ParseError α
  | some a => pure a
  | none => bare (throw .invalidData)

def readEnum16 (of : Nat → Option α) : ParserM ParseError α := do
  orInvalidData (of (← readU16))

def readEnum8 (of : UInt8 → Option α) : ParserM ParseError α := do
  orInvalidData (of (← readU8))

@[simp] theorem erase_readEnum16 (of : Nat → Option α) :
    (readEnum16 of).erase = GatoPskTls.readEnum16 of := by
  rw [readEnum16, erase_bind, erase_readU16]
  refine bind_congr fun code => ?_
  cases of code with
  | some a => rfl
  | none => rfl

@[simp] theorem erase_readEnum8 (of : UInt8 → Option α) :
    (readEnum8 of).erase = GatoPskTls.readEnum8 of := by
  rw [readEnum8, erase_bind, erase_readU8]
  refine bind_congr fun code => ?_
  cases of code with
  | some a => rfl
  | none => rfl

def serverName : ParserM ParseError ServerName := do
  let nameType ← readU8
  if nameType ≠ 0 then bare (throw .invalidData)
  else do
    let nameLen ← readU16
    let name ← slice nameLen
    if name.buffer.all (· < 128) then pure ⟨name.buffer⟩ else bare (throw .invalidData)

def serverNameList (N : Nat) : ParserM ParseError ServerNameList := do
  let dataLength ← readU16
  return ⟨← readList N dataLength serverName⟩

def protocolVersion : ParserM ParseError ProtocolVersion := do
  return ⟨← readU16⟩

def supportedVersions (N : Nat) : ParserM ParseError SupportedVersionsClientHello := do
  let dataLength ← readU8
  return ⟨← readList N dataLength.toNat protocolVersion⟩

def signatureAlgorithmsStep (N : Nat) (acc : List SignatureScheme) :
    ParserM ParseError (List SignatureScheme) := do
  match ← attempt (readEnum16 SignatureScheme.of) with
  | .ok scheme => pure (if acc.length < N then acc ++ [scheme] else acc)
  | .error .invalidData => pure acc
  | .error e => bare (throw e)

def signatureAlgorithms (N : Nat) : ParserM ParseError SignatureAlgorithms := do
  let dataLength ← readU16
  let data ← slice dataLength
  return ⟨← within data (whileNotEmpty (signatureAlgorithmsStep N) data.remaining [])⟩

def signatureAlgorithmsCert (N : Nat) : ParserM ParseError SignatureAlgorithmsCert := do
  let dataLength ← readU16
  return ⟨← readList N dataLength (readEnum16 SignatureScheme.of)⟩

def supportedGroups (N : Nat) : ParserM ParseError SupportedGroups := do
  let dataLength ← readU16
  return ⟨← readList N dataLength (readEnum16 NamedGroup.of)⟩

def keyShareEntry : ParserM ParseError KeyShareEntry := do
  let group ← readEnum16 NamedGroup.of
  let opaqueLen ← readU16
  let data ← slice opaqueLen
  return ⟨group, data.buffer⟩

def keyShareClientHello (N : Nat) : ParserM ParseError KeyShareClientHello := do
  let len ← readU16
  return ⟨← readList N len keyShareEntry⟩

def pskKeyExchangeModes (N : Nat) : ParserM ParseError PskKeyExchangeModes := do
  let dataLength ← readU8
  return ⟨← readList N dataLength.toNat (readEnum8 PskKeyExchangeMode.of)⟩

def alpnStep (_ : Unit) : ParserM ParseError Unit := do
  let nameLen ← readU8
  if nameLen = 0 then bare (throw .invalidData)
  else do
    let _ ← slice nameLen.toNat
    pure ()

def alpnProtocolNameList : ParserM ParseError AlpnProtocolNameList := do
  let listLen ← readU16
  let listBuf ← slice listLen
  within listBuf (whileNotEmpty alpnStep listBuf.remaining ())
  return ⟨[]⟩

def identityStep (N : Nat) (identities : List Bytes) : ParserM ParseError (List Bytes) := do
  let idLen ← readU16
  if idLen < 1 then bare (throw .invalidData)
  else do
    let idData ← slice idLen
    let identities ← pushWithin N .insufficientSpace identities idData.buffer
    let _ ← readU32
    return identities

def binderStep (N : Nat) (acc : List Bytes × Nat) : ParserM ParseError (List Bytes × Nat) := do
  let bLen ← readU8
  if bLen.toNat < 32 then bare (throw .invalidData)
  else do
    let bData ← slice bLen.toNat
    let binders ← pushWithin N .insufficientSpace acc.1 bData.buffer
    if acc.2 = 0 then pure (binders, bLen.toNat)
    else if acc.2 ≠ bLen.toNat then bare (throw .invalidData)
    else pure (binders, acc.2)

def preSharedKeyClientHello (N : Nat) : ParserM ParseError PreSharedKeyClientHello := do
  let identitiesLen ← readU16
  if identitiesLen < 7 then bare (throw .invalidData)
  else do
    let idBuf ← slice identitiesLen
    let identities ← within idBuf (whileNotEmpty (identityStep N) idBuf.remaining [])
    if identities.isEmpty then bare (throw .invalidData)
    else do
      let bindersTotalLen ← readU16
      if bindersTotalLen < 33 then bare (throw .invalidData)
      else do
        let bindBuf ← slice bindersTotalLen
        let (binders, hashSize) ←
          within bindBuf (whileNotEmpty (binderStep N) bindBuf.remaining ([], 0))
        if binders.length ≠ identities.length then bare (throw .invalidData)
        else pure ⟨identities, binders, hashSize⟩

section Erased

variable (N : Nat)

@[simp] theorem erase_serverNameList : (serverNameList N).erase = ServerNameList.parse N := by
  simp only [serverNameList, serverName, erase_bind, erase_pure, erase_bare, erase_ite, erase_readList,
    erase_readU8, erase_readU16, erase_slice]
  rfl

@[simp] theorem erase_supportedVersions :
    (supportedVersions N).erase = SupportedVersionsClientHello.parse N := by
  simp only [supportedVersions, protocolVersion, erase_bind, erase_pure, erase_readList, erase_readU8,
    erase_readU16]
  rfl

@[simp] theorem erase_signatureAlgorithms :
    (signatureAlgorithms N).erase = SignatureAlgorithms.parse N := by
  have hstep : ∀ acc, (signatureAlgorithmsStep N acc).erase = SignatureAlgorithms.step N acc := by
    intro acc
    rw [signatureAlgorithmsStep, erase_bind, erase_attempt, erase_readEnum16]
    refine bind_congr fun r => ?_
    rcases r with e | scheme
    · cases e <;> rfl
    · rfl
  simp only [signatureAlgorithms, erase_bind, erase_pure, erase_readU16, erase_slice, erase_within,
    erase_whileNotEmpty, hstep]
  rfl

@[simp] theorem erase_signatureAlgorithmsCert :
    (signatureAlgorithmsCert N).erase = SignatureAlgorithmsCert.parse N := by
  simp only [signatureAlgorithmsCert, erase_bind, erase_pure, erase_readU16, erase_readList,
    erase_readEnum16]
  rfl

@[simp] theorem erase_supportedGroups : (supportedGroups N).erase = SupportedGroups.parse N := by
  simp only [supportedGroups, erase_bind, erase_pure, erase_readU16, erase_readList,
    erase_readEnum16]
  rfl

@[simp] theorem erase_keyShareClientHello :
    (keyShareClientHello N).erase = KeyShareClientHello.parse N := by
  simp only [keyShareClientHello, keyShareEntry, erase_bind, erase_pure, erase_readU16,
    erase_readList, erase_readEnum16, erase_slice]
  rfl

@[simp] theorem erase_pskKeyExchangeModes :
    (pskKeyExchangeModes N).erase = PskKeyExchangeModes.parse N := by
  simp only [pskKeyExchangeModes, erase_bind, erase_pure, erase_readU8, erase_readList,
    erase_readEnum8]
  rfl

@[simp] theorem erase_alpnProtocolNameList :
    alpnProtocolNameList.erase = AlpnProtocolNameList.parse := by
  simp only [alpnProtocolNameList, alpnStep, erase_bind, erase_pure, erase_bare, erase_ite,
    erase_readU8, erase_readU16, erase_slice, erase_within, erase_whileNotEmpty]
  rfl

@[simp] theorem erase_preSharedKeyClientHello :
    (preSharedKeyClientHello N).erase = PreSharedKeyClientHello.parse N := by
  simp only [preSharedKeyClientHello, identityStep, binderStep, pushWithin, erase_bind, erase_pure,
    erase_bare, erase_ite, erase_readU8, erase_readU16, erase_readU32, erase_slice, erase_within,
    erase_whileNotEmpty]
  rfl

end Erased

section Bounds

variable {limit N : Nat} (hlimit : 2 ^ 32 ≤ limit)

theorem orInvalidData_bounded (o : Option α) : Bounded limit (orInvalidData o) fun _ => True := by
  cases o with
  | some a => exact .pure trivial
  | none => exact .throw _

theorem readEnum8_bounded (of : UInt8 → Option α) :
    Bounded limit (readEnum8 of) fun _ => True :=
  readU8_bounded.bind fun _ _ => orInvalidData_bounded _

include hlimit

theorem readShort_bounded : Bounded limit readU16 fun a => 2 * a < limit :=
  (readU16_bounded (by omega)).weaken fun _ ha => by omega

omit hlimit in
theorem double_byte_lt (hlimit : 2 ^ 32 ≤ limit) (byte : UInt8) : 2 * byte.toNat < limit := by
  have := byte.toNat_lt
  omega

theorem readEnum16_bounded (of : Nat → Option α) :
    Bounded limit (readEnum16 of) fun _ => True :=
  (readShort_bounded hlimit).bind fun _ _ => orInvalidData_bounded _

theorem serverNameList_bounded : Bounded limit (serverNameList N) fun _ => True := by
  have hname : Bounded limit serverName fun _ => True := by
    refine readU8_bounded.bind fun nameType _ => ?_
    split
    · exact .throw _
    refine (readShort_bounded hlimit).bind fun nameLen hlen =>
      (slice_bounded hlen).bind fun name _ => ?_
    split
    · exact .pure trivial
    · exact .throw _
  exact (readShort_bounded hlimit).bind fun _ hlen =>
    (readList_bounded hlen hname).bind fun _ _ => .pure trivial

theorem supportedVersions_bounded : Bounded limit (supportedVersions N) fun _ => True := by
  have hversion : Bounded limit protocolVersion fun _ => True :=
    (readShort_bounded hlimit).bind fun _ _ => .pure trivial
  exact readU8_bounded.bind fun len _ =>
    (readList_bounded (double_byte_lt hlimit len) hversion).bind fun _ _ => .pure trivial

theorem signatureAlgorithms_bounded : Bounded limit (signatureAlgorithms N) fun _ => True := by
  have hstep : ∀ acc, Bounded limit (signatureAlgorithmsStep N acc) fun _ => True := by
    intro acc
    refine (attempt_bounded (readEnum16_bounded hlimit _)).bind fun r _ => ?_
    split
    · exact .pure trivial
    · exact .pure trivial
    · exact .throw _
  exact (readShort_bounded hlimit).bind fun _ hlen => (slice_bounded hlen).bind fun data hdata =>
    (within_bounded hdata (@whileNotEmpty_bounded _ _ _ _ (fun _ => True) (fun acc _ => hstep acc) _ _
      trivial)).bind fun _ _ => .pure trivial

theorem signatureAlgorithmsCert_bounded :
    Bounded limit (signatureAlgorithmsCert N) fun _ => True :=
  (readShort_bounded hlimit).bind fun _ hlen =>
    (readList_bounded hlen (readEnum16_bounded hlimit _)).bind fun _ _ => .pure trivial

theorem supportedGroups_bounded : Bounded limit (supportedGroups N) fun _ => True :=
  (readShort_bounded hlimit).bind fun _ hlen =>
    (readList_bounded hlen (readEnum16_bounded hlimit _)).bind fun _ _ => .pure trivial

theorem keyShareClientHello_bounded : Bounded limit (keyShareClientHello N) fun _ => True := by
  have hentry : Bounded limit keyShareEntry fun _ => True :=
    (readEnum16_bounded hlimit _).bind fun _ _ => (readShort_bounded hlimit).bind fun _ hlen =>
      (slice_bounded hlen).bind fun _ _ => .pure trivial
  exact (readShort_bounded hlimit).bind fun _ hlen =>
    (readList_bounded hlen hentry).bind fun _ _ => .pure trivial

theorem pskKeyExchangeModes_bounded : Bounded limit (pskKeyExchangeModes N) fun _ => True :=
  readU8_bounded.bind fun len _ =>
    (readList_bounded (double_byte_lt hlimit len) (readEnum8_bounded _)).bind fun _ _ => .pure trivial

theorem alpnProtocolNameList_bounded : Bounded limit alpnProtocolNameList fun _ => True := by
  have hstep : ∀ acc, Bounded limit (alpnStep acc) fun _ => True := by
    intro acc
    refine readU8_bounded.bind fun nameLen _ => ?_
    split
    · exact .throw _
    · exact (slice_bounded (double_byte_lt hlimit nameLen)).bind fun _ _ => .pure trivial
  exact (readShort_bounded hlimit).bind fun _ hlen => (slice_bounded hlen).bind fun _ hdata =>
    (within_bounded hdata (@whileNotEmpty_bounded _ _ _ _ (fun _ => True) (fun acc _ => hstep acc) _ _
      trivial)).bind fun _ _ => .pure trivial

/-- What the parser of the offered keys has made sure of. -/
structure Paired (N : Nat) (psk : PreSharedKeyClientHello) : Prop where
  binders_length : psk.binders.length = psk.identities.length
  binders_le : psk.binders.length ≤ N
  each_le : ∀ binder ∈ psk.binders, binder.length ≤ 255

theorem binderStep_bounded (acc : List Bytes × Nat)
    (hacc : acc.1.length ≤ N ∧ ∀ binder ∈ acc.1, binder.length ≤ 255) :
    Bounded limit (binderStep N acc) fun acc' =>
      acc'.1.length ≤ N ∧ ∀ binder ∈ acc'.1, binder.length ≤ 255 := by
  refine readU8_bounded.bind fun bLen _ => ?_
  split
  · exact .throw _
  refine (slice_exact (double_byte_lt hlimit bLen)).bind fun bData hlen => ?_
  have hbyte : bData.buffer.length ≤ 255 := by
    have := bLen.toNat_lt
    omega
  refine (pushWithin_bounded hacc.2 hbyte).bind fun binders hbinders => ?_
  split
  · exact .pure hbinders
  split
  · exact .throw _
  · exact .pure hbinders

theorem preSharedKeyClientHello_bounded : Bounded limit (preSharedKeyClientHello N) (Paired N) := by
  have hidentity : ∀ identities, Bounded limit (identityStep N identities) fun _ => True := by
    intro identities
    refine (readShort_bounded hlimit).bind fun idLen hlen => ?_
    split
    · exact .throw _
    refine (slice_bounded hlen).bind fun _ _ =>
      (@pushWithin_bounded _ _ _ N _ _ _ (fun _ => True) (fun _ _ => trivial) trivial).bind fun _ _ => ?_
    exact (readNumber_bounded (by omega)).bind fun _ _ => .pure trivial
  refine (readShort_bounded hlimit).bind fun identitiesLen hids => ?_
  split
  · exact .throw _
  refine (slice_bounded hids).bind fun idBuf hidBuf => (within_bounded hidBuf
    (@whileNotEmpty_bounded _ _ _ _ (fun _ => True) (fun acc _ => hidentity acc) _ _ trivial)).bind
      fun identities _ => ?_
  split
  · exact .throw _
  refine (readShort_bounded hlimit).bind fun bindersTotalLen htotal => ?_
  split
  · exact .throw _
  refine (slice_bounded htotal).bind fun bindBuf hbindBuf => (within_bounded hbindBuf
    (whileNotEmpty_bounded (binderStep_bounded hlimit) _ ⟨Nat.zero_le N, by simp⟩)).bind
      fun ⟨binders, hashSize⟩ hacc => ?_
  dsimp only
  split
  · exact .throw _
  next hpaired => exact .pure ⟨not_not.mp hpaired, hacc.1, hacc.2⟩

end Bounds

/-- The extensions of a message with the parsers of their data. -/
abbrev Group (α : Type) := ExtensionType → Option (ParserM ParseError α)

def clientHelloGroup : Group ClientHelloExtension
  | .serverName => some (return .serverName (← serverNameList 1))
  | .supportedVersions => some (return .supportedVersions (← supportedVersions 1))
  | .signatureAlgorithms => some (return .signatureAlgorithms (← signatureAlgorithms 25))
  | .supportedGroups => some (return .supportedGroups (← supportedGroups 13))
  | .keyShare => some (return .keyShare (← keyShareClientHello 4))
  | .preSharedKey => some (return .preSharedKey (← preSharedKeyClientHello 4))
  | .pskKeyExchangeModes => some (return .pskKeyExchangeModes (← pskKeyExchangeModes 4))
  | .signatureAlgorithmsCert => some (return .signatureAlgorithmsCert (← signatureAlgorithmsCert 25))
  | .maxFragmentLength => some (return .maxFragmentLength (← readEnum8 MaxFragmentLength.of))
  | .applicationLayerProtocolNegotiation =>
      some (return .applicationLayerProtocolNegotiation (← alpnProtocolNameList))
  -- the data of the other extensions is kept as it is
  | extensionType => (ClientHelloExtension.group extensionType).map bare

theorem erase_clientHelloGroup (extensionType : ExtensionType) :
    (clientHelloGroup extensionType).map erase = ClientHelloExtension.group extensionType := by
  cases extensionType <;>
    simp only [clientHelloGroup, ClientHelloExtension.group, Option.map_some, Option.map_none,
      erase_bind, erase_pure, erase_bare, erase_serverNameList, erase_supportedVersions,
      erase_signatureAlgorithms, erase_supportedGroups, erase_keyShareClientHello,
      erase_preSharedKeyClientHello, erase_pskKeyExchangeModes, erase_signatureAlgorithmsCert,
      erase_readEnum8, erase_alpnProtocolNameList, MaxFragmentLength.parse]

/-- A pre_shared_key extension pairs its identities and binders. -/
def WellPaired (ext : ClientHelloExtension) : Prop := ∀ psk, ext = .preSharedKey psk → Paired 4 psk

theorem clientHelloGroup_bounded {limit : Nat} (hlimit : 2 ^ 32 ≤ limit)
    {extensionType : ExtensionType} {p : ParserM ParseError ClientHelloExtension}
    (h : clientHelloGroup extensionType = some p) : Bounded limit p WellPaired := by
  have hother : ∀ {α : Type} {x : ParserM ParseError α} {wrap : α → ClientHelloExtension},
      (∀ a psk, wrap a ≠ .preSharedKey psk) → Bounded limit x (fun _ => True) →
      Bounded limit (do return wrap (← x)) WellPaired := by
    intro α x wrap hwrap hx
    exact hx.bind fun a _ => .pure fun psk hpsk => absurd hpsk (hwrap a psk)
  have hkept : ∀ {wrap : Unimplemented → ClientHelloExtension},
      (∀ a psk, wrap a ≠ .preSharedKey psk) →
      Bounded limit (bare (do return wrap (← Unimplemented.parse))) WellPaired := by
    intro wrap hwrap
    exact fun buffer _ => .bare fun b hb => ⟨hb, fun psk hpsk => absurd hpsk (hwrap _ psk)⟩
  cases extensionType
  case compressCertificate => cases h
  all_goals obtain rfl := Option.some.inj h
  case serverName => exact hother (fun _ _ => nofun) (serverNameList_bounded hlimit)
  case supportedVersions => exact hother (fun _ _ => nofun) (supportedVersions_bounded hlimit)
  case signatureAlgorithms => exact hother (fun _ _ => nofun) (signatureAlgorithms_bounded hlimit)
  case supportedGroups => exact hother (fun _ _ => nofun) (supportedGroups_bounded hlimit)
  case keyShare => exact hother (fun _ _ => nofun) (keyShareClientHello_bounded hlimit)
  case preSharedKey =>
    refine (preSharedKeyClientHello_bounded hlimit).bind fun psk hpaired => .pure fun psk' hpsk => ?_
    cases hpsk
    exact hpaired
  case pskKeyExchangeModes => exact hother (fun _ _ => nofun) (pskKeyExchangeModes_bounded hlimit)
  case signatureAlgorithmsCert =>
    exact hother (fun _ _ => nofun) (signatureAlgorithmsCert_bounded hlimit)
  case maxFragmentLength => exact hother (fun _ _ => nofun) (readEnum8_bounded _)
  case applicationLayerProtocolNegotiation =>
    exact hother (fun _ _ => nofun) (alpnProtocolNameList_bounded hlimit)
  all_goals exact hkept fun _ _ => nofun

def extension (group : Group α) : ParserM TlsError α := do
  let extensionType ← attempt (readEnum16 ExtensionType.of)
  let dataLen ← .mapError (fun _ => TlsError.decodeError) readU16
  let extData ← .mapError (fun _ => TlsError.decodeError) (slice dataLen)
  match extensionType with
  | .error .invalidData => bare (throw .unknownExtensionType)
  | .error _ => bare (throw .decodeError)
  | .ok extType =>
      match group extType with
      | some p => within extData (.mapError (fun _ => TlsError.decodeError) p)
      | none => bare (throw (fatal .illegalParameter))

/-- The length that is left is only logged. -/
def vectorStep (group : Group α) (N : Nat) (acc : List α) : ParserM TlsError (List α) := do
  let b ← bare get
  demand [.minus b.buffer.length b.pos]
  match ← attempt (extension group) with
  | .ok ext => pushWithin N .decodeError acc ext
  | .error .unknownExtensionType => pure acc
  | .error e => bare (throw e)

def parseVector (group : Group α) (N : Nat) : ParserM TlsError (List α) := do
  let extensionsLen ← .mapError (fun _ => TlsError.invalidExtensionsLength) readU16
  let extBuf ← .mapError TlsError.parseError (slice extensionsLen)
  within extBuf (whileNotEmpty (vectorStep group N) extBuf.remaining [])

section Vector

variable {group : Group α} {N : Nat}

theorem erase_extension : (extension group).erase = ExtensionGroup.parse fun t => (group t).map erase := by
  simp only [extension, ExtensionGroup.parse, erase_bind, erase_attempt, erase_readEnum16,
    erase_mapError, erase_readU16, erase_slice]
  refine bind_congr fun extensionType => bind_congr fun _ => bind_congr fun extData => ?_
  rcases extensionType with e | extType
  · cases e <;> rfl
  · cases hgroup : group extType with
    | none => simp only [hgroup, Option.map_none, erase_bare]
    | some p => simp only [hgroup, Option.map_some, erase_within, erase_mapError]

theorem erase_parseVector :
    (parseVector group N).erase = ExtensionGroup.parseVector (fun t => (group t).map erase) N := by
  have hstep : ∀ acc, (vectorStep group N acc).erase =
      ExtensionGroup.vectorStep (fun t => (group t).map erase) N acc := by
    intro acc
    simp only [vectorStep, ExtensionGroup.vectorStep, erase_bind, erase_bare, erase_demand,
      erase_attempt, erase_extension, pure_bind]
    funext b
    rw [get_bind_apply]
    refine congrFun (bind_congr fun r => ?_) b
    rcases r with e | ext
    · cases e <;> rfl
    · rfl
  simp only [parseVector, ExtensionGroup.parseVector, erase_bind, erase_mapError, erase_readU16,
    erase_slice, erase_within, erase_whileNotEmpty, hstep]

theorem parseVector_bounded {limit : Nat} (hlimit : 2 ^ 32 ≤ limit) {each : α → Prop}
    (hgroup : ∀ {t p}, group t = some p → Bounded limit p each) :
    Bounded limit (parseVector group N) fun exts => exts.length ≤ N ∧ ∀ ext ∈ exts, each ext := by
  have hextension : Bounded limit (extension group) each := by
    refine (attempt_bounded (readEnum16_bounded hlimit _)).bind fun extensionType _ =>
      (readShort_bounded hlimit).mapError.bind fun dataLen hlen =>
      (slice_bounded hlen).mapError.bind fun extData hdata => ?_
    split
    · exact .throw _
    · exact .throw _
    · split
      next hp => exact within_bounded hdata (hgroup hp).mapError
      · exact .throw _
  have hstep : ∀ acc : List α, acc.length ≤ N ∧ (∀ ext ∈ acc, each ext) →
      Bounded limit (vectorStep group N acc) fun exts =>
        exts.length ≤ N ∧ ∀ ext ∈ exts, each ext := by
    intro acc hacc
    refine .get_bind fun b _ => ?_
    have hleft : AllMet limit [.minus b.buffer.length b.pos] :=
      allMet_cons.mpr ⟨b.pos_le, allMet_nil limit⟩
    refine (Bounded.demand hleft).bind fun _ _ => (attempt_bounded hextension).bind fun r hr => ?_
    split
    · exact pushWithin_bounded hacc.2 (hr _ rfl)
    · exact .pure hacc
    · exact .throw _
  exact (readShort_bounded hlimit).mapError.bind fun _ hlen => (slice_bounded hlen).mapError.bind
    fun _ hdata => within_bounded hdata
      (whileNotEmpty_bounded hstep _ ⟨Nat.zero_le N, by simp⟩)

end Vector

def orInvalid (p : ParserM ParseError α) : ParserM TlsError α :=
  .mapError (fun _ => .invalidHandshake) p

@[simp] theorem erase_orInvalid (p : ParserM ParseError α) :
    (orInvalid p).erase = ClientHelloRef.orInvalid p.erase := erase_mapError _ p

def parseHeader : ParserM TlsError Nat := do
  let msgTypeRaw ← orInvalid readU8
  if msgTypeRaw ≠ HandshakeType.clientHello.toU8 then bare (throw .invalidHandshake)
  else do
    let bodyLen ← orInvalid readU24
    let bodyStart ← bare ParseBuffer.offset
    demand [.plus bodyStart bodyLen]
    return bodyStart + bodyLen

def parseSessionId : ParserM TlsError Bytes := do
  let sessionIdLen ← orInvalid readU8
  if sessionIdLen.toNat > 32 then bare (throw .invalidSessionIdLength)
  else do
    let sessionIdBuf ← orInvalid (slice sessionIdLen.toNat)
    return sessionIdBuf.buffer

def parseCipherSuites : ParserM TlsError Bytes := do
  let cipherSuitesLen ← orInvalid readU16
  if cipherSuitesLen < 2 ∨ cipherSuitesLen % 2 ≠ 0 then bare (throw .invalidHandshake)
  else do
    let cipherSuitesBuf ← orInvalid (slice cipherSuitesLen)
    return cipherSuitesBuf.buffer

def parseCompressionMethods : ParserM TlsError Bytes := do
  let compLen ← orInvalid readU8
  if compLen.toNat < 1 then bare (throw .invalidHandshake)
  else do
    let compBuf ← orInvalid (slice compLen.toNat)
    return compBuf.buffer

/-- `wire_len += 1 + binder.len()` -/
def binderDemands (wireLen : Nat) : List Bytes → List Demand
  | [] => []
  | binder :: binders =>
      .plus 1 binder.length :: .plus wireLen (1 + binder.length) ::
        binderDemands (wireLen + (1 + binder.length)) binders

/-- The walk back from the end of the message, with the positions collected in a vector that holds
as many of them as there may be extensions. -/
def bindersStartDemands (NEXT : Nat) (extensions : List ClientHelloExtension) (total : Nat) :
    List Demand :=
  let indices := ClientHelloRef.pskIndices extensions
  (List.range indices.length).map (fun i => .push i NEXT) ++
    if indices.length > 1 then []
    else
      match indices.head? with
      | none => []
      | some idx =>
          .minus extensions.length 1 ::
            if idx ≠ extensions.length - 1 then []
            else
              .index idx extensions.length ::
                match extensions[idx]? with
                | some (.preSharedKey psk) =>
                    let wireLen := ClientHelloRef.bindersWireLen psk.binders
                    binderDemands 2 psk.binders ++
                      if wireLen > total then [] else [.minus total wireLen]
                | _ => []

def parse (NEXT : Nat) : ParserM TlsError ClientHelloRef := do
  let totalMessageLength ← parseHeader
  let legacyVersion ← orInvalid readU16
  let random ← orInvalid (fill 32)
  let legacySessionId ← parseSessionId
  let cipherSuites ← parseCipherSuites
  let legacyCompressionMethods ← parseCompressionMethods
  let extensions ← parseVector clientHelloGroup NEXT
  if (← bare ParseBuffer.offset) ≠ totalMessageLength then bare (throw .invalidHandshake)
  else do
    demand (bindersStartDemands NEXT extensions totalMessageLength)
    let bindersStartOffset ←
      bare (fromResult (ClientHelloRef.findBindersStart extensions totalMessageLength))
    return { legacyVersion, random, legacySessionId, cipherSuites, legacyCompressionMethods,
             extensions, bindersStartOffset }

theorem erase_parse (NEXT : Nat) : (parse NEXT).erase = ClientHelloRef.parse NEXT := by
  simp only [parse, parseHeader, parseSessionId, parseCipherSuites, parseCompressionMethods,
    erase_bind, erase_ite, erase_orInvalid, erase_readU8, erase_readU16, erase_readU24, erase_fill,
    erase_slice, erase_bare, erase_demand, erase_pure, erase_parseVector, erase_clientHelloGroup,
    pure_bind]
  rfl

theorem mem_pskIndices_lt {extensions : List ClientHelloExtension} {idx : Nat}
    (h : idx ∈ ClientHelloRef.pskIndices extensions) : idx < extensions.length := by
  obtain ⟨⟨ext, i⟩, hmem, hidx⟩ := List.mem_filterMap.mp h
  have hi := (List.mem_zipIdx hmem).2.1
  dsimp only at hidx
  split at hidx
  · obtain rfl := Option.some.inj hidx
    omega
  · cases hidx

theorem binderDemands_met {limit wireLen : Nat} {binders : List Bytes}
    (heach : ∀ binder ∈ binders, binder.length ≤ 255)
    (hroom : wireLen + 256 * binders.length < limit) :
    AllMet limit (binderDemands wireLen binders) := by
  induction binders generalizing wireLen with
  | nil => exact allMet_nil limit
  | cons binder binders ih =>
      obtain ⟨hbinder, hbinders⟩ := List.forall_mem_cons.mp heach
      rw [List.length_cons] at hroom
      refine allMet_cons.mpr ⟨show 1 + binder.length < limit by omega, allMet_cons.mpr
        ⟨show wireLen + (1 + binder.length) < limit by omega, ih hbinders (by omega)⟩⟩

theorem bindersStartDemands_met {limit NEXT total : Nat} {extensions : List ClientHelloExtension}
    (hlimit : 2 ^ 32 ≤ limit) (hlen : extensions.length ≤ NEXT)
    (hsound : ∀ ext ∈ extensions, WellPaired ext) :
    AllMet limit (bindersStartDemands NEXT extensions total) := by
  have hindices : (ClientHelloRef.pskIndices extensions).length ≤ extensions.length := by
    rw [ClientHelloRef.pskIndices]
    exact (List.length_filterMap_le _ _).trans_eq List.length_zipIdx
  refine allMet_append.mpr ⟨fun d hd => ?_, ?_⟩
  · obtain ⟨i, hi, rfl⟩ := List.mem_map.mp hd
    rw [List.mem_range] at hi
    exact show i < NEXT by omega
  split
  · exact allMet_nil limit
  split
  · exact allMet_nil limit
  next idx hhead =>
    have hidx := mem_pskIndices_lt (List.mem_of_head? hhead)
    refine allMet_cons.mpr ⟨show 1 ≤ extensions.length by omega, ?_⟩
    split
    · exact allMet_nil limit
    refine allMet_cons.mpr ⟨hidx, ?_⟩
    split
    next psk hpsk =>
      have hpaired := hsound _ (List.mem_of_getElem? hpsk) psk rfl
      have hfew := hpaired.binders_le
      refine allMet_append.mpr ⟨binderDemands_met hpaired.each_le (by omega), ?_⟩
      split
      · exact allMet_nil limit
      next hroom => exact allMet_cons.mpr ⟨Nat.le_of_not_gt hroom, allMet_nil limit⟩
    · exact allMet_nil limit

section Message

variable {limit NEXT : Nat}

theorem offset_bounded : Bounded limit (bare ParseBuffer.offset : ParserM ε Nat)
    fun pos => 2 * pos < limit := by
  refine fun buffer hbuffer => .bare fun b hb => ?_
  subst hb
  have hpos := b.pos_le
  exact ⟨rfl, show 2 * b.pos < limit by omega⟩

theorem parseHeader_bounded (hlimit : 2 ^ 32 ≤ limit) : Bounded limit parseHeader fun _ => True := by
  refine readU8_bounded.mapError.bind fun msgTypeRaw _ => ?_
  split
  · exact .throw _
  refine (readNumber_bounded (by omega)).mapError.bind fun bodyLen hlen =>
    offset_bounded.bind fun bodyStart hstart => (Bounded.demand ?_).bind fun _ _ => .pure trivial
  exact allMet_cons.mpr ⟨show bodyStart + bodyLen < limit by omega, allMet_nil limit⟩

theorem parseSessionId_bounded (hlimit : 2 ^ 32 ≤ limit) :
    Bounded limit parseSessionId fun sid => sid.length ≤ 32 := by
  refine readU8_bounded.mapError.bind fun len _ => ?_
  split
  · exact .throw _
  next hlen =>
    exact (slice_exact (double_byte_lt hlimit len)).mapError.bind fun _ hdata =>
      .pure (by rw [hdata]; exact Nat.le_of_not_gt hlen)

theorem parse_bounded (hlimit : 2 ^ 32 ≤ limit) : Bounded limit (parse NEXT) fun hello =>
    hello.legacySessionId.length ≤ 32 ∧ ∀ ext ∈ hello.extensions, WellPaired ext := by
  have hsuites : Bounded limit parseCipherSuites fun _ => True := by
    refine (readShort_bounded hlimit).mapError.bind fun _ hlen => ?_
    split
    · exact .throw _
    · exact (slice_bounded hlen).mapError.bind fun _ _ => .pure trivial
  have hcompression : Bounded limit parseCompressionMethods fun _ => True := by
    refine readU8_bounded.mapError.bind fun len _ => ?_
    split
    · exact .throw _
    · exact (slice_bounded (double_byte_lt hlimit len)).mapError.bind fun _ _ => .pure trivial
  refine (parseHeader_bounded hlimit).bind fun total _ =>
    (readShort_bounded hlimit).mapError.bind fun _ _ =>
    (fill_bounded (by omega)).mapError.bind fun _ _ =>
    (parseSessionId_bounded hlimit).bind fun _ hsid => hsuites.bind fun _ _ =>
    hcompression.bind fun _ _ =>
    (parseVector_bounded hlimit (clientHelloGroup_bounded hlimit)).bind fun exts hexts =>
    offset_bounded.bind fun pos _ => ?_
  split
  · exact .throw _
  refine (Bounded.demand (bindersStartDemands_met hlimit hexts.1 hexts.2)).bind fun _ _ => ?_
  have hstart : Bounded limit (bare (fromResult (ClientHelloRef.findBindersStart exts total)) :
      ParserM TlsError Nat) fun _ => True := by
    refine fun buffer _ => .bare fun b hb => ?_
    cases ClientHelloRef.findBindersStart exts total with
    | ok start => exact ⟨hb, trivial⟩
    | error e => exact hb
  exact hstart.bind fun _ _ => .pure ⟨hsid, hexts.2⟩

end Message

end GatoPskTls.Checked
