import GatoPskTls.Aead
import GatoPskTls.ServerHelloWire
import GatoPskTls.Server.Conformance

/-!
# Server: an honest handshake

A client that follows the protocol with the same PSK gets its flight, reads it, and ends
with the server on the same keys. Of the cryptography this needs that X25519 commutes and
that the AEAD opens what it seals.
-/
namespace GatoPskTls.Server

open GatoPskTls Stateful BigEndian Splice Rfc8446

variable {cs : TlsCipherSuite} {P : Primitives cs} {X : X25519} {config : TlsServerConfig}

/-- Two parties that combine their secrets with the other's public value get the same. -/
def X25519.Commutes (X : X25519) : Prop :=
  ∀ a b, X.mult a (X.mult b X.basepoint) = X.mult b (X.mult a X.basepoint)

theorem exists_sealedWith (hP : P.AeadCorrect) (s : KeyScheduleState cs) {payload : Bytes}
    (marker : ContentType) (h : payload.length < 2 ^ 14) :
    ∃ ciphertext, sealedWith P s payload marker = some ciphertext :=
  hP.seals _ _ _ _ (by simp [protectedHeader]) (by simp; omega)

theorem protectedRecord_eq (ciphertext : Bytes) : protectedRecord ciphertext =
    [ContentType.applicationData.toU8, 0x03, 0x03] ++ sized 2 ciphertext := by
  simp [protectedRecord, protectedHeader, sized]

/-- The length field of a record. -/
theorem lengthField_eq {head body rest : Bytes} (hhead : head.length = 3)
    (hbody : body.length < 256 ^ 2) :
    fromBigEndian ((((head ++ sized 2 body) ++ rest).drop 3).take 2) = body.length := by
  rw [List.append_assoc, List.drop_left' hhead, sized, List.append_assoc,
    List.take_left' (bigEndian_length 2 _), fromBigEndian_bigEndian, Nat.mod_eq_of_lt hbody]

theorem oneRecord_append {head body rest : Bytes} (hhead : head.length = 3)
    (hbody : body.length < 256 ^ 2) :
    Peer.oneRecord ((head ++ sized 2 body) ++ rest) = (head ++ sized 2 body, rest) := by
  have hlen : (head ++ sized 2 body).length = RECORD_HEADER_LEN + body.length := by
    rw [List.length_append, hhead, sized_length, RECORD_HEADER_LEN]
    omega
  rw [Peer.oneRecord, lengthField_eq hhead hbody, List.take_left' hlen, List.drop_left' hlen]

theorem splitFirstFlight_eq {sh ee fin : Bytes} (hsh : sh.length < 256 ^ 2)
    (hee : ee.length < 256 ^ 2) (hfin : fin.length < 256 ^ 2) :
    Peer.splitFirstFlight (plaintextRecord sh ++ protectedRecord ee ++ protectedRecord fin) =
      .ok (plaintextRecord sh, protectedRecord ee, protectedRecord fin) := by
  have hlast := @oneRecord_append [ContentType.applicationData.toU8, 0x03, 0x03] fin [] rfl hfin
  rw [List.append_nil] at hlast
  simp only [Peer.splitFirstFlight, plaintextRecord, protectedRecord_eq]
  rw [List.append_assoc (_ ++ sized 2 sh), oneRecord_append rfl hsh]
  dsimp only
  rw [oneRecord_append rfl hee]
  dsimp only
  rw [hlast]
  rfl

theorem checkFraming_protectedRecord {ciphertext : Bytes} (h : ciphertext.length < 256 ^ 2) :
    Session.checkFraming (protectedRecord ciphertext) = .ok ciphertext.length := by
  have hfield := @lengthField_eq [ContentType.applicationData.toU8, 0x03, 0x03] ciphertext [] rfl h
  rw [List.append_nil, ← protectedRecord_eq] at hfield
  have hlen := protectedRecord_length ciphertext
  rw [Session.checkFraming, if_neg (by rw [hlen, RECORD_HEADER_LEN]; omega), if_neg (by
    rw [protectedRecord_eq]; simp), hfield, if_neg (by rw [hlen, RECORD_HEADER_LEN]; simp)]

theorem protectedRecord_take (ciphertext : Bytes) :
    (protectedRecord ciphertext).take RECORD_HEADER_LEN = protectedHeader ciphertext.length := by
  simp [protectedRecord, protectedHeader, RECORD_HEADER_LEN]

theorem protectedRecord_drop (ciphertext : Bytes) :
    (protectedRecord ciphertext).drop RECORD_HEADER_LEN = ciphertext := by
  simp [protectedRecord, protectedHeader, RECORD_HEADER_LEN]

theorem openedWith_eq (hP : P.AeadCorrect) {s : KeyScheduleState cs}
    {payload ciphertext : Bytes} {marker : ContentType}
    (h : sealedWith P s payload marker = some ciphertext) :
    Session.openedWith P s (protectedRecord ciphertext) = some (payload ++ [marker.toU8]) := by
  rw [Session.openedWith, protectedRecord_take, protectedRecord_drop, sealedWith_length h]
  exact hP.opens h

theorem decryptHandshakeRecord_eq (hP : P.AeadCorrect) {ks : KeySchedule cs}
    {payload ciphertext : Bytes}
    (h : sealedWith P ks.serverState.state payload .handshake = some ciphertext)
    (hsmall : ciphertext.length ≤ 256) (hc : CanCount ks.serverState.state) :
    Peer.decryptHandshakeRecord P (protectedRecord ciphertext) ks = .ok payload (bumpServer ks) := by
  have hfield := @lengthField_eq [ContentType.applicationData.toU8, 0x03, 0x03] ciphertext [] rfl
    (by omega)
  rw [List.append_nil, ← protectedRecord_eq] at hfield
  have hlen := protectedRecord_length ciphertext
  have hopened := openedWith_eq hP h
  rw [Session.openedWith, protectedRecord_drop] at hopened
  have hwf : (CryptoBuffer.wrapWithPos ciphertext ciphertext.length).WF := by
    simp [CryptoBuffer.WF, CryptoBuffer.wrapWithPos]
  have hslice : (CryptoBuffer.wrapWithPos ciphertext ciphertext.length).asSlice = ciphertext := by
    simp [CryptoBuffer.asSlice, CryptoBuffer.wrapWithPos]
  have hinc := incrementServerCounter_eq ks
  rw [if_pos hc] at hinc
  rw [Peer.decryptHandshakeRecord, if_neg (by
    rw [hfield, hlen, RECORD_HEADER_LEN, protectedRecord_eq]; simp; omega)]
  simp only [get_bind_apply, KeyScheduleState.getKey, KeyScheduleState.getNonce,
    mapError_ok_eq, fromResult_ok_bind, protectedRecord_drop, CryptoBuffer.decryptInPlace_eq hwf,
    hslice, hopened, bind_of_ok hinc]
  have hbuf : ∀ plaintext : Bytes, (splice ciphertext 0 plaintext).take plaintext.length = plaintext :=
    fun plaintext => by simp [splice]
  have hend := @Session.padEnd_marked payload .handshake (by decide)
  simp only [CryptoBuffer.wrapWithPos, hbuf, hend, List.take_left, pure_apply]

namespace Session.FirstFlight

variable {s : Session cs} {msg flight : Bytes} (f : FirstFlight P X msg config s)

theorem sh_length_le : f.sh.length ≤ 128 := by
  obtain ⟨-, hblock⟩ := serverHelloExtensions_short f.extensions
  have hsid := f.sessionId_le
  have hrandom := config.serverRandom.property
  simp only [sh, serverHelloMessage_length, ServerHelloEmit.wire, serverHello, List.length_append,
    bigEndian_length, sized_length, hrandom, List.length_singleton]
  omega

theorem fin_length : f.fin.length = 4 + cs.hashLen := finishedMessage_length _

theorem written_length (h : f.Written flight) : flight.length ≤ 256 := by
  obtain ⟨ee, fin, hee, hfin, rfl⟩ := h
  have hsh := f.sh_length_le
  have hhash := hashLen_le_48 cs
  have htag : cs.tagSize = 16 := rfl
  have hextensions : encryptedExtensionsMessage.length = 6 := rfl
  rw [List.length_append, List.length_append, plaintextRecord_length, protectedRecord_length,
    protectedRecord_length, sealedWith_length hee, sealedWith_length hfin, f.fin_length]
  omega

/-- The parser accepts the ServerHello and reads its extensions back. -/
theorem takes_hello : Takes ServerHello.parse
    (serverHello config f.offer.hello.legacySessionId f.exts).wire (.ok ⟨f.exts⟩) := by
  obtain ⟨hcount, hblock⟩ := serverHelloExtensions_short f.extensions
  obtain ⟨hversions, hidentity, -⟩ := serverHelloExtensions_mem f.extensions
  have hexts : ∀ ext ∈ f.exts, ext.ReadBack := by
    intro ext hext
    cases ext with
    | supportedVersions data => exact (hversions data).mp hext ▸ (by decide : TLS13.code < 256 ^ 2)
    | preSharedKey data => exact (hidentity data).mp hext ▸ examine_selectedIdx_lt f.examined
    | _ => trivial
  exact @ServerHelloEmit.takes_wire (serverHello config f.offer.hello.legacySessionId f.exts)
    .tlsAes128GcmSha256 f.sessionId_le (by decide : TLS_AES_128_GCM_SHA256 < 256 ^ 2) rfl hexts hcount
    (show (f.exts.flatMap ServerHelloExtension.wire).length < 256 ^ 2 by omega)

/-- The client finds in the ServerHello the share the server put there. -/
theorem serverShare_eq : Peer.serverShare (plaintextRecord f.sh) =
    .ok ((ServerHello.mk f.exts).keyShare.map (·.opaqueBytes)) := by
  have hparse := outcome_eq_ok f.takes_hello.outcome_new
  have hbody : (plaintextRecord f.sh).drop (RECORD_HEADER_LEN + HANDSHAKE_HEADER_LEN) =
      (serverHello config f.offer.hello.legacySessionId f.exts).wire := by
    simp [plaintextRecord, sh, serverHelloMessage, sized, RECORD_HEADER_LEN, HANDSHAKE_HEADER_LEN,
      bigEndian]
  rw [Peer.serverShare, hbody, hparse]

/-- The client's share and the server's keypair are what their secrets make of them. -/
structure Paired (secret : GenericArray X25519_LEN) : Prop where
  keypair : ∀ keypair, config.dheKeypair = some keypair → keypair = .fromSecret X keypair.secret
  share : ∀ share, f.mode = .pskDheKe share → share = (X.mult secret X.basepoint).val

variable {secret : GenericArray X25519_LEN}

/-- The client installs the keys the server has installed. -/
theorem installHandshakeKeys_eq (hX : X.Commutes) (hpaired : f.Paired secret)
    (ks : KeySchedule cs) :
    Peer.installHandshakeKeys P X secret ((ServerHello.mk f.exts).keyShare.map (·.opaqueBytes)) ks =
      .ok () (handshakeStage P f.ikm ks) := by
  have hexts := f.extensions
  have hshared := f.shared
  cases hmode : f.mode with
  | pskKe =>
      rw [hmode] at hexts hshared
      rw [← Except.ok.inj hexts, ← Option.some.inj hshared]
      exact KeySchedule.initializeHandshakeSecret_eq P _ ks
  | pskDheKe share =>
      have hshare := hpaired.share share hmode
      rw [hmode] at hexts hshared
      simp only [serverHelloExtensions, sharedSecret] at hexts hshared
      cases hdhe : config.dheKeypair with
      | none => simp [hdhe] at hexts
      | some keypair =>
          have hpublic := congrArg DheKeyShare.publicKey (hpaired.keypair keypair hdhe)
          have hlen : share.length = X25519_LEN := by
            rw [hshare]
            exact (X.mult secret X.basepoint).property
          simp only [hdhe, dif_pos hlen] at hexts hshared
          split at hshared
          · cases hshared
          · have hagree : X.mult secret keypair.publicKey = X.mult keypair.secret ⟨share, hlen⟩ := by
              rw [hpublic, DheKeyShare.fromSecret, hX secret keypair.secret]
              exact congrArg _ (Subtype.ext hshare.symm)
            rw [← Except.ok.inj hexts, ← Option.some.inj hshared, ← hagree]
            have hinstall : Peer.installHandshakeKeys P X secret (some keypair.publicKey.val) =
                KeySchedule.initializeHandshakeSecret P (X.mult secret keypair.publicKey).val :=
              dif_pos keypair.publicKey.property
            exact (congrFun hinstall ks).trans (KeySchedule.initializeHandshakeSecret_eq P _ ks)

/-- Both protected messages fit the buffer a client opens them in. -/
theorem sealed_lengths {ee fin : Bytes}
    (hee : sealedWith P f.keyed.serverState.state encryptedExtensionsMessage .handshake = some ee)
    (hfin : sealedWith P f.afterExtensions.serverState.state f.fin .handshake = some fin) :
    ee.length = 23 ∧ fin.length ≤ 69 := by
  have hhash := hashLen_le_48 cs
  have htag : cs.tagSize = 16 := rfl
  have hextensions : encryptedExtensionsMessage.length = 6 := rfl
  have heeLen := sealedWith_length hee
  have hfinLen := sealedWith_length hfin
  rw [f.fin_length] at hfinLen
  omega

theorem readEncrypted_eq (hP : P.AeadCorrect) {ee fin : Bytes}
    (hee : sealedWith P f.keyed.serverState.state encryptedExtensionsMessage .handshake = some ee)
    (hfin : sealedWith P f.afterExtensions.serverState.state f.fin .handshake = some fin) :
    Peer.readEncrypted P (protectedRecord ee) (protectedRecord fin) f.keyed =
      .ok true f.session.schedule := by
  obtain ⟨heeLen, hfinLen⟩ := f.sealed_lengths hee hfin
  have hfirst := decryptHandshakeRecord_eq hP hee (by omega) f.keyed_canCount
  have hsecond := decryptHandshakeRecord_eq hP hfin (by omega) f.afterExtensions_canCount
  have hmac := (finishedMac P f.serverSecret f.afterExtensions.serverState.transcriptHash).property
  have hverify : (f.fin.drop HANDSHAKE_HEADER_LEN).take cs.hashLen =
      (finishedMac P f.serverSecret f.afterExtensions.serverState.transcriptHash).val := by
    rw [FirstFlight.fin, finishedMessage_eq]
    exact List.take_of_length_le (Nat.le_of_eq hmac)
  have hlen : ((f.fin.drop HANDSHAKE_HEADER_LEN).take cs.hashLen).length = cs.hashLen := by
    rw [hverify, hmac]
  have habsorb : KeySchedule.updateTranscript encryptedExtensionsMessage (bumpServer f.keyed) =
      .ok () f.afterExtensions := rfl
  have hfinAbsorb : KeySchedule.updateTranscript f.fin (bumpServer f.afterExtensions) =
      .ok () f.session.schedule := rfl
  rw [Peer.readEncrypted, bind_of_ok hfirst, bind_of_ok habsorb, bind_of_ok hsecond, get_bind_apply]
  rw [bind_of_ok hfinAbsorb, dif_pos hlen, get_bind_apply]
  have hok : KeySchedule.verifyServerFinished P f.session.schedule.serverState
      ⟨⟨_, hlen⟩, some (P.hash (bumpServer f.afterExtensions).serverState.transcriptHash)⟩ =
      .ok true :=
    KeySchedule.verifyFinished_eq_ok.mpr ⟨f.serverSecret, f.afterExtensions_trafficSecret,
      (decide_eq_true hverify.symm).symm⟩
  rw [hok]
  rfl

theorem receiveFlight_eq (hX : X.Commutes) (hP : P.AeadCorrect) (hpaired : f.Paired secret)
    (h : f.Written flight) :
    Peer.receiveFlight P X secret msg flight (prepared P config s).schedule =
      .ok true f.session.schedule := by
  obtain ⟨ee, fin, hee, hfin, rfl⟩ := h
  obtain ⟨heeLen, hfinLen⟩ := f.sealed_lengths hee hfin
  have hsh := f.sh_length_le
  rw [Peer.receiveFlight, splitFirstFlight_eq (by omega) (by omega) (by omega), fromResult_ok_bind]
  have hch : KeySchedule.updateTranscript msg (prepared P config s).schedule =
      .ok () (absorb (prepared P config s).schedule msg) := rfl
  have hsh : KeySchedule.updateTranscript ((plaintextRecord f.sh).drop RECORD_HEADER_LEN)
      (absorb (prepared P config s).schedule msg) =
      .ok () (absorb (absorb (prepared P config s).schedule msg) f.sh) := by
    rw [plaintextRecord_drop]
    rfl
  dsimp only
  rw [bind_of_ok hch, bind_of_ok hsh, f.serverShare_eq, mapError_ok_eq, fromResult_ok_bind,
    bind_of_ok (f.installHandshakeKeys_eq hX hpaired _)]
  exact f.readEncrypted_eq hP hee hfin

end Session.FirstFlight

theorem finishedRecord_eq {ks : KeySchedule cs} {prk : GenericArray cs.hashLen} {ciphertext : Bytes}
    (hsecret : ks.clientState.state.trafficSecret = .initialized prk)
    (hseal : sealedWith P ks.clientState.state
      (finishedMessage (finishedMac P prk ks.serverState.transcriptHash)) .handshake = some ciphertext)
    (hc : CanCount ks.clientState.state) :
    Peer.finishedRecord P ks = .ok (protectedRecord ciphertext) (bumpClient ks) := by
  set verify := finishedMac P prk ks.serverState.transcriptHash with hverify
  have hcreate : ks.createClientFinished P = .ok ⟨verify, none⟩ := by
    rw [KeySchedule.createClientFinished, hsecret, KeySchedule.finishedMac_eq]
    rfl
  have hinner : [HandshakeType.finished.toU8, 0, 0, UInt8.ofNat cs.hashLen] ++ verify.val ++
      [ContentType.handshake.toU8] = finishedMessage verify ++ [ContentType.handshake.toU8] := by
    rw [finishedMessage_eq]
    cases cs <;> rfl
  have hlen := sealedWith_length hseal
  have hregion := @sealRegion_eq cs P ks.clientState.state
    (protectedHeader ((finishedMessage verify).length + 1 + cs.tagSize))
    (finishedMessage verify ++ [ContentType.handshake.toU8]) (List.replicate cs.tagSize 0)
    List.length_replicate
  rw [sealedWith] at hseal
  have hplain : (finishedMessage verify ++ [ContentType.handshake.toU8]).length =
      (finishedMessage verify).length + 1 := List.length_append
  rw [hseal, hplain] at hregion
  have hinc := incrementClientCounter_eq ks
  rw [if_pos hc] at hinc
  simp only [Peer.finishedRecord, get_bind_apply, hcreate, mapError_ok_eq, fromResult_ok_bind, hinner,
    hplain, hregion, bind_of_ok hinc, pure_apply, protectedRecord, hlen]

/-- The server accepts the Finished of a client whose schedule is its own. -/
theorem processClientFinished_of_client (hP : P.AeadCorrect) {s : Session cs}
    {prk : GenericArray cs.hashLen} {ciphertext : Bytes}
    (hsecret : s.schedule.clientState.state.trafficSecret = .initialized prk)
    (hseal : sealedWith P s.schedule.clientState.state
      (finishedMessage (finishedMac P prk s.schedule.serverState.transcriptHash)) .handshake =
        some ciphertext)
    (hc : CanCount s.schedule.clientState.state) :
    Session.processClientFinished P (protectedRecord ciphertext) s = .ok () { s with
      schedule := absorb (Session.applicationStage P (bumpClient s.schedule))
        (finishedMessage (finishedMac P prk s.schedule.serverState.transcriptHash)) } := by
  have hlen := sealedWith_length hseal
  have hhash := hashLen_le_48 cs
  have htag : cs.tagSize = 16 := rfl
  rw [finishedMessage_length] at hlen
  exact Session.processClientFinished_eq_ok.mpr ⟨{
    bodyLen := ciphertext.length
    plaintext := _
    verify := _
    prk := prk
    framed := checkFraming_protectedRecord (by omega)
    small := by omega
    opened := openedWith_eq hP hseal
    counts := hc
    stripped := Session.stripPadding_marked rfl (by decide)
    secret := hsecret
    verified := rfl }, rfl⟩

/-- A ClientHello that passes the server's parser and validators, with the binder the client's
schedule makes for it; `secret` is the client's X25519 secret, and a shared secret that is used
is not zero. -/
structure HonestHello (P : Primitives cs) (X : X25519) (config : TlsServerConfig) (hrr : HrrState)
    (client : KeySchedule cs) (secret : GenericArray X25519_LEN) (msg : Bytes) where
  offer : Offer
  binder : PskBinder cs
  examined : examine msg config hrr = .ok offer
  created : KeySchedule.createPskBinder P client.clientState
    (client.serverState.transcriptHash ++ msg.take offer.hello.bindersStartOffset) = .ok binder
  carried : offer.receivedBinder = binder.verify.val
  share : ∀ share, offer.decision = .use (.pskDheKe share) →
    share = (X.mult secret X.basepoint).val
  nonzero : ∀ share keypair, offer.decision = .use (.pskDheKe share) →
    config.dheKeypair = some keypair →
    (X.mult keypair.secret (X.mult secret X.basepoint)).val.all (· == 0) = false

/-- The conditions of an honest ClientHello, computed. -/
def HonestHello.check (P : Primitives cs) (X : X25519) (config : TlsServerConfig) (hrr : HrrState)
    (client : KeySchedule cs) (secret : GenericArray X25519_LEN) (msg : Bytes) : Bool :=
  match examine msg config hrr with
  | .error _ => false
  | .ok offer =>
      ((KeySchedule.createPskBinder P client.clientState (client.serverState.transcriptHash ++
        msg.take offer.hello.bindersStartOffset)).toOption.any
          fun binder => offer.receivedBinder == binder.verify.val) &&
      match offer.decision with
      | .use (.pskDheKe share) => share == (X.mult secret X.basepoint).val &&
          config.dheKeypair.all fun keypair =>
            !(X.mult keypair.secret (X.mult secret X.basepoint)).val.all (· == 0)
      | _ => true

theorem HonestHello.of_check {hrr : HrrState} {client : KeySchedule cs}
    {secret : GenericArray X25519_LEN} {msg : Bytes}
    (h : check P X config hrr client secret msg = true) :
    Nonempty (HonestHello P X config hrr client secret msg) := by
  simp only [check] at h
  split at h
  · cases h
  next offer hexamine =>
    obtain ⟨hbinder, hkex⟩ := Bool.and_eq_true_iff.mp h
    cases hcreate : KeySchedule.createPskBinder P client.clientState
        (client.serverState.transcriptHash ++ msg.take offer.hello.bindersStartOffset) with
    | error e => simp [hcreate, Except.toOption] at hbinder
    | ok binder =>
        rw [hcreate] at hbinder
        refine ⟨⟨offer, binder, hexamine, hcreate, eq_of_beq hbinder, ?_, ?_⟩⟩
        · intro share hdecision
          rw [hdecision] at hkex
          exact eq_of_beq (Bool.and_eq_true_iff.mp hkex).1
        · intro share keypair hdecision hkeypair
          rw [hdecision, hkeypair] at hkex
          simpa using (Bool.and_eq_true_iff.mp hkex).2

/-- The ClientHello is answered with a flight that the client reads, the client's Finished is
accepted, and then both ends hold the same keys, IVs and counters in both directions. -/
structure Completes (P : Primitives cs) (X : X25519) (config : TlsServerConfig)
    (client : KeySchedule cs) (secret : GenericArray X25519_LEN) (s : Session cs)
    (msg out : Bytes) where
  flight : Bytes
  record : Bytes
  s₁ : Session cs
  s₂ : Session cs
  client₁ : KeySchedule cs
  client₂ : KeySchedule cs
  client₃ : KeySchedule cs
  answered : Session.processClientHello P X msg config out s = .ok (.firstFlight flight) s₁
  received : Peer.receiveFlight P X secret msg flight client = .ok true client₁
  finished : Peer.finishedRecord P client₁ = .ok record client₂
  accepted : Session.processClientFinished P record s₁ = .ok () s₂
  switched : KeySchedule.initializeMasterSecret P client₂ = .ok () client₃
  clientKeys : client₃.clientState.state = s₂.schedule.clientState.state
  serverKeys : client₃.serverState.state = s₂.schedule.serverState.state

namespace HonestHello

variable {client : KeySchedule cs} {secret : GenericArray X25519_LEN} {s : Session cs}
  {before msg out : Bytes}

/-- The client's binder is the one the server expects. -/
theorem binderVerifies (ho : Session.Opening P X config s before)
    (h : HonestHello P X config s.hrrState (Session.prepared P config s).schedule secret msg) :
    Session.BinderVerifies P (Session.prepared P config s).schedule.clientState.binderKey s.binderBase
      msg h.offer := by
  have hcreated := h.created
  have hcarried := h.carried
  rw [Session.prepared_transcript, ho.transcript_eq, ← ho.binderBase_eq] at hcreated
  have hkey : ∃ prk, (Session.prepared P config s).schedule.clientState.binderKey =
      .initialized prk := by
    rw [ho.prepared_eq]
    exact ⟨_, rfl⟩
  obtain ⟨prk, hprk⟩ := hkey
  rw [KeySchedule.createPskBinder, hprk, KeySchedule.finishedMac_eq, ok_bind] at hcreated
  refine ⟨prk, hprk, ?_⟩
  rw [hcarried, ← Except.ok.inj hcreated]

/-- The flight for an honest ClientHello exists. -/
theorem exists_firstFlight (ho : Session.Opening P X config s before)
    (h : HonestHello P X config s.hrrState (Session.prepared P config s).schedule secret msg)
    {mode : KexMode} (hmode : h.offer.decision = .use mode) :
    ∃ f : Session.FirstFlight P X msg config s, f.mode = mode ∧ f.offer = h.offer := by
  have hkex := (examine_eq_ok.mp h.examined).2.2.2.2.1
  have hb := h.binderVerifies ho
  cases mode with
  | pskKe => exact ⟨⟨h.offer, .pskKe, _, _, h.examined, hb, hmode, rfl, rfl⟩, rfl, rfl⟩
  | pskDheKe share =>
      rw [hmode] at hkex
      obtain ⟨-, hdhe, hshare⟩ := decideKex_pskDheKe.mp hkex
      obtain ⟨keypair, hkeypair⟩ := Option.isSome_iff_exists.mp hdhe
      have hlen := findClientX25519Share_length hshare
      have hvalue := h.share share hmode
      have hnonzero := h.nonzero share keypair hmode hkeypair
      have hmult : X.mult keypair.secret ⟨share, hlen⟩ =
          X.mult keypair.secret (X.mult secret X.basepoint) := congrArg _ (Subtype.ext hvalue)
      refine ⟨⟨h.offer, .pskDheKe share, _, (X.mult keypair.secret ⟨share, hlen⟩).val, h.examined, hb,
        hmode, by rw [serverHelloExtensions, hkeypair], ?_⟩, rfl, rfl⟩
      simp only [Session.sharedSecret, hkeypair, dif_pos hlen]
      rw [if_neg (by rw [hmult, hnonzero]; simp)]

theorem completes (hX : X.Commutes) (hP : P.AeadCorrect)
    (hpair : ∀ keypair, config.dheKeypair = some keypair → keypair = .fromSecret X keypair.secret)
    (ho : Session.Opening P X config s before)
    (h : HonestHello P X config s.hrrState (Session.prepared P config s).schedule secret msg)
    {mode : KexMode} (hmode : h.offer.decision = .use mode) (hout : 256 ≤ out.length) :
    Nonempty (Completes P X config (Session.prepared P config s).schedule secret s msg out) := by
  obtain ⟨f, hf, hoffer⟩ := h.exists_firstFlight ho hmode
  have hpaired : f.Paired secret := ⟨hpair, fun share hshare => h.share share (by
    rw [hmode, ← hf, hshare])⟩
  have hextensions : encryptedExtensionsMessage.length = 6 := rfl
  have hhash := hashLen_le_48 cs
  have hfinLen := f.fin_length
  obtain ⟨ee, hee⟩ := exists_sealedWith hP f.keyed.serverState.state .handshake
    (show encryptedExtensionsMessage.length < 2 ^ 14 by omega)
  obtain ⟨fin, hfin⟩ := exists_sealedWith hP f.afterExtensions.serverState.state .handshake
    (show f.fin.length < 2 ^ 14 by omega)
  have hwritten : f.Written _ := ⟨ee, fin, hee, hfin, rfl⟩
  have hanswered := Session.processClientHello_firstFlight.mpr
    ⟨f, hwritten, (f.written_length hwritten).trans hout, rfl⟩
  -- the client's secret, which both ends derived with the server's
  obtain ⟨prk, hsecret, hcount⟩ : ∃ prk,
      f.session.schedule.clientState.state.trafficSecret = .initialized prk ∧
      CanCount f.session.schedule.clientState.state :=
    ⟨_, rfl, (by decide : (0 : UInt64).toNat + 1 < 2 ^ 64)⟩
  have hmessage := finishedMessage_length (finishedMac P prk f.session.schedule.serverState.transcriptHash)
  obtain ⟨ciphertext, hseal⟩ := exists_sealedWith hP f.session.schedule.clientState.state .handshake
    (show (finishedMessage (finishedMac P prk
      f.session.schedule.serverState.transcriptHash)).length < 2 ^ 14 by omega)
  exact ⟨{
    flight := _
    record := _
    s₁ := _
    s₂ := _
    client₁ := _
    client₂ := _
    client₃ := _
    answered := hanswered
    received := f.receiveFlight_eq hX hP hpaired hwritten
    finished := finishedRecord_eq hsecret hseal hcount
    accepted := processClientFinished_of_client hP hsecret hseal hcount
    switched := KeySchedule.initializeMasterSecret_eq P _
    clientKeys := rfl
    serverKeys := rfl }⟩

end HonestHello

theorem started_eq (config : TlsServerConfig) :
    Peer.started P config.pskSecret = (Session.prepared P config Session.new).schedule := by
  rw [Peer.started, KeySchedule.initializeEarlySecret_eq]
  rfl

/-- The client's schedule after a retry is the server's. -/
theorem absorbRetry_eq {msg record out : Bytes} {s : Session cs}
    (h : Session.processClientHello P X msg config out Session.new =
      .ok (.helloRetryRequest record) s) :
    after (Peer.absorbRetry P msg record (Peer.started P config.pskSecret)) =
      (Session.prepared P config s).schedule := by
  rw [started_eq, (Session.Opening.fresh (P := P) (X := X)).prepared_eq,
    (Session.Opening.retried h).prepared_eq]
  rfl

theorem Session.Retry.record_length_le {msg : Bytes} {s : Session cs}
    (r : Session.Retry P msg config s) : (plaintextRecord r.hrr).length ≤ 256 := by
  have hsid := r.sessionId_le
  have hrandom : HRR_SPECIAL_RANDOM.length = 32 := rfl
  rw [plaintextRecord_length, Session.Retry.hrr, retryMessage, serverHelloMessage_length, retryBody]
  simp only [List.length_append, sized_length, bigEndian_length, hrandom, List.length_cons,
    List.length_nil]
  omega

/-- An honest client completes its handshake, at once or after one retry, and both ends agree. -/
theorem honest_handshake_completes (hX : X.Commutes) (hP : P.AeadCorrect)
    (hpair : ∀ keypair, config.dheKeypair = some keypair → keypair = .fromSecret X keypair.secret)
    {secret : GenericArray X25519_LEN} {msg out : Bytes}
    (h : HonestHello P X config .default (Peer.started P config.pskSecret) secret msg)
    (hout : 256 ≤ out.length) :
    match h.offer.decision with
    | .use _ => Nonempty (Completes P X config (Peer.started P config.pskSecret) secret Session.new
        msg out)
    | .retry _ => ∃ record s, Session.processClientHello P X msg config out Session.new =
        .ok (.helloRetryRequest record) s ∧
        ∀ secret₂ msg₂ out₂, Nonempty (HonestHello P X config s.hrrState
            (after (Peer.absorbRetry P msg record (Peer.started P config.pskSecret))) secret₂ msg₂) →
          256 ≤ out₂.length →
          Nonempty (Completes P X config
            (after (Peer.absorbRetry P msg record (Peer.started P config.pskSecret))) secret₂ s
            msg₂ out₂) := by
  revert h
  rw [started_eq]
  intro h
  have ho : Session.Opening P X config Session.new [] := .fresh
  split
  next mode hmode => exact h.completes hX hP hpair ho hmode hout
  next group hgroup =>
    let r : Session.Retry P msg config Session.new :=
      ⟨h.offer, group, h.examined, h.binderVerifies ho, hgroup⟩
    have hretry := (Session.processClientHello_retry (X := X)).mpr
      ⟨r, rfl, r.record_length_le.trans hout, rfl⟩
    refine ⟨_, _, hretry, ?_⟩
    rintro secret₂ msg₂ out₂ ⟨h₂⟩ hout₂
    rw [← started_eq, absorbRetry_eq hretry] at h₂ ⊢
    cases hdecision : h₂.offer.decision with
    | use mode => exact h₂.completes hX hP hpair (.retried hretry) hdecision hout₂
    | retry group₂ =>
        have hkex := (examine_eq_ok.mp h₂.examined).2.2.2.2.1
        rw [hdecision] at hkex
        cases (decideKex_retry hkex).1

theorem additive_commutes : Peer.additive.Commutes := by
  intro a b
  refine Subtype.ext ?_
  simp only [Peer.additive]
  apply List.ext_getElem
  · simp [a.property, b.property]
  · intro i h₁ h₂
    simp only [List.getElem_zipWith]
    ac_rfl

theorem shareless_retry : (examine Peer.shareless Peer.config .default).toOption.map (·.decision) =
    some (.retry .x25519) := by decide +kernel

theorem honest_retried_handshake_completes :
    Nonempty (Completes Peer.suite Peer.additive Peer.config
      (after (Peer.absorbRetry Peer.suite Peer.shareless Peer.retryRecord
        (Peer.started Peer.suite Peer.config.pskSecret)))
      Peer.clientSecret Session.retriedSession Peer.answering Peer.room) := by
  have hroom : 256 ≤ Peer.room.length := by
    rw [Peer.room, List.length_replicate]
    decide
  obtain ⟨h⟩ : Nonempty (HonestHello Peer.suite Peer.additive Peer.config .default
      (Peer.started Peer.suite Peer.config.pskSecret) Peer.clientSecret Peer.shareless) :=
    HonestHello.of_check (by decide +kernel)
  have hdecision : h.offer.decision = .retry .x25519 := by
    have := shareless_retry
    rw [h.examined] at this
    exact Option.some.inj this
  have hcompletes := honest_handshake_completes additive_commutes (Primitives.checksumming_aeadCorrect _)
    (by rintro keypair ⟨⟩; rfl) h hroom
  rw [hdecision] at hcompletes
  obtain ⟨record, s, hretry, hsecond⟩ := hcompletes
  cases hretry.symm.trans Session.retriedSession_eq
  exact hsecond Peer.clientSecret Peer.answering Peer.room
    (HonestHello.of_check (by decide +kernel)) hroom

end GatoPskTls.Server
